import Mathlib.Data.List.DropRight
import Mathlib.Data.List.TakeWhile

/-! Python's `str` methods on lists of characters. -/

set_option autoImplicit false

namespace PyText

/-- `c.isspace()`. -/
def isSpace (c : Char) : Bool :=
  let n := c.toNat
  decide (9 ≤ n ∧ n ≤ 13) || decide (28 ≤ n ∧ n ≤ 32) || decide (n = 0x85) ||
    decide (n = 0xA0) || decide (n = 0x1680) || decide (0x2000 ≤ n ∧ n ≤ 0x200A) ||
    decide (n = 0x2028) || decide (n = 0x2029) || decide (n = 0x202F) ||
    decide (n = 0x205F) || decide (n = 0x3000)

def lstrip (s : List Char) : List Char := s.dropWhile isSpace

def rstrip (s : List Char) : List Char := s.rdropWhile isSpace

def strip (s : List Char) : List Char := rstrip (lstrip s)

/-- Nothing but white space. -/
def blank (s : List Char) : Bool := s.all isSpace

/-- The zeros of the decimal digits: ten digits follow each other from every zero. -/
def decimalZeros : List Nat :=
  [0x30, 0x660, 0x6F0, 0x7C0, 0x966, 0x9E6, 0xA66, 0xAE6, 0xB66, 0xBE6, 0xC66, 0xCE6, 0xD66,
   0xDE6, 0xE50, 0xED0, 0xF20, 0x1040, 0x1090, 0x17E0, 0x1810, 0x1946, 0x19D0, 0x1A80, 0x1A90,
   0x1B50, 0x1BB0, 0x1C40, 0x1C50, 0xA620, 0xA8D0, 0xA900, 0xA9D0, 0xA9F0, 0xAA50, 0xABF0,
   0xFF10, 0x104A0, 0x10D30, 0x11066, 0x110F0, 0x11136, 0x111D0, 0x112F0, 0x11450, 0x114D0,
   0x11650, 0x116C0, 0x11730, 0x118E0, 0x11950, 0x11C50, 0x11D50, 0x11DA0, 0x11F50, 0x16A60,
   0x16AC0, 0x16B50, 0x1D7CE, 0x1D7D8, 0x1D7E2, 0x1D7EC, 0x1D7F6, 0x1E140, 0x1E2F0, 0x1E4F0,
   0x1E950, 0x1FBF0]

/-- `c.isdecimal()`, which is `\d` in a regular expression. -/
def isDecimal (c : Char) : Bool :=
  decimalZeros.any fun d => decide (d ≤ c.toNat ∧ c.toNat ≤ d + 9)

/-- What ends a line for `splitlines()`. -/
def isLineBreak (c : Char) : Bool :=
  let n := c.toNat
  decide (10 ≤ n ∧ n ≤ 13) || decide (28 ≤ n ∧ n ≤ 30) || decide (n = 0x85) ||
    decide (n = 0x2028) || decide (n = 0x2029)

/-- The lines of a text, each with what ends it. -/
def lines : List Char → List (List Char × List Char)
  | [] => []
  | '\r' :: '\n' :: rest => ([], ['\r', '\n']) :: lines rest
  | c :: rest =>
    if isLineBreak c then ([], [c]) :: lines rest
    else
      match lines rest with
      | [] => [([c], [])]
      | (line, stop) :: more => (c :: line, stop) :: more

def splitlines (s : List Char) : List (List Char) := (lines s).map Prod.fst

/-- `s.splitlines(keepends=True)`. -/
def splitlinesKeepends (s : List Char) : List (List Char) := (lines s).map fun l => l.1 ++ l.2

/-- The lines that `"\n"` ends; the last one has no end. -/
def newlineLines : List Char → List (List Char × List Char)
  | [] => [([], [])]
  | c :: rest =>
    if c = '\n' then ([], [c]) :: newlineLines rest
    else
      match newlineLines rest with
      | [] => [([c], [])]
      | (line, stop) :: more => (c :: line, stop) :: more

/-- `str(n)`. -/
def strInt : Int → List Char
  | .ofNat n => Nat.toDigits 10 n
  | .negSucc n => '-' :: Nat.toDigits 10 (n + 1)

/-- `s.split(sep, 1)[0]`. -/
def splitFirst (sep : Char) (s : List Char) : List Char := s.takeWhile (· ≠ sep)

/-- `s.split(sep)[-1]`. -/
def splitLast (sep : Char) (s : List Char) : List Char := s.rtakeWhile (· ≠ sep)

theorem take_add_of_isPrefix {l p : List Char} {n : Nat} (h : p <+: l.drop n) :
    l.take (n + p.length) = l.take n ++ p := by
  rw [List.take_add, ← List.prefix_iff_eq_take.mp h]

theorem flatten_newlineLines (s : List Char) :
    ((newlineLines s).map fun l => l.1 ++ l.2).flatten = s := by
  induction s with
  | nil => rfl
  | cons c s ih =>
    unfold newlineLines
    by_cases hc : c = '\n'
    · simp [hc, ih]
    · cases hs : newlineLines s with
      | nil => simpa [hc, hs] using ih
      | cons l ls => simpa [hc, hs] using ih

theorem flatten_splitlinesKeepends (s : List Char) : (splitlinesKeepends s).flatten = s := by
  unfold splitlinesKeepends
  induction s using lines.induct with
  | case1 => rfl
  | case2 rest ih => simp [lines, ih]
  | case3 c rest hcrlf hbreak ih =>
    rw [lines]
    · simp [hbreak, ih]
    · exact hcrlf
  | case4 c rest hcrlf hbreak hrest ih =>
    rw [lines]
    · rw [hrest] at ih
      simpa [hbreak, hrest] using ih
    · exact hcrlf
  | case5 c rest hcrlf hbreak line stop more hrest ih =>
    rw [lines]
    · rw [hrest] at ih
      simpa [hbreak, hrest] using ih
    · exact hcrlf

theorem newline_of_mem_lines {s : List Char} : ∀ l ∈ lines s,
    '\n' ∉ l.1 ∧ (l.2 = [] ∨ l.2 = ['\r', '\n'] ∨ ∃ c, l.2 = [c]) := by
  induction s using lines.induct with
  | case1 => simp [lines]
  | case2 rest ih => simpa [lines] using ih
  | case3 c rest hcrlf hbreak ih =>
    rw [lines]
    · simpa [hbreak] using ih
    · exact hcrlf
  | case4 c rest hcrlf hbreak hrest ih =>
    rw [lines]
    · have hc : '\n' ≠ c := by
        rintro rfl
        exact hbreak (by decide)
      simp [hbreak, hrest, hc]
    · exact hcrlf
  | case5 c rest hcrlf hbreak line stop more hrest ih =>
    rw [lines]
    · have hc : '\n' ≠ c := by
        rintro rfl
        exact hbreak (by decide)
      rw [hrest] at ih
      simpa [hbreak, hrest, hc] using ih
    · exact hcrlf

theorem count_newline_of_mem {s line : List Char} (h : line ∈ splitlinesKeepends s) :
    line.count '\n' = if line.getLast? = some '\n' then 1 else 0 := by
  obtain ⟨l, hl, rfl⟩ := List.mem_map.mp h
  obtain ⟨hline, hstop⟩ := newline_of_mem_lines l hl
  have hcount : l.1.count '\n' = 0 := List.count_eq_zero.mpr hline
  rw [List.count_append, hcount, Nat.zero_add]
  rcases hstop with hstop | hstop | ⟨c, hstop⟩
  · have hlast : l.1.getLast? ≠ some '\n' := fun hlast => hline (List.mem_of_getLast? hlast)
    simp [hstop, hlast]
  · simp [hstop]
  · simp [hstop, List.count_singleton]

theorem count_newline_flatten {s : List Char} {ls : List (List Char)}
    (h : ∀ line ∈ ls, line ∈ splitlinesKeepends s) :
    ls.flatten.count '\n' = ls.countP fun line => decide (line.getLast? = some '\n') := by
  induction ls with
  | nil => rfl
  | cons line rest ih =>
    rw [List.flatten_cons, List.count_append, count_newline_of_mem (h line List.mem_cons_self),
      ih fun l hl => h l (List.mem_cons_of_mem _ hl), List.countP_cons, Nat.add_comm]
    simp

theorem ne_cr_of_not_break {c : Char} (h : ¬ isLineBreak c = true) : c ≠ '\r' := by
  rintro rfl
  exact h (by decide)

theorem lines_cons_of_break {c : Char} {s : List Char} (hcrlf : c = '\r' → s.head? ≠ some '\n')
    (h : isLineBreak c = true) : lines (c :: s) = ([], [c]) :: lines s := by
  rw [lines]
  · simp [h]
  · rintro rest rfl rfl
    exact hcrlf rfl rfl

theorem lines_cons_of_char {c : Char} (s : List Char) (h : ¬ isLineBreak c = true) :
    lines (c :: s) = match lines s with
      | [] => [([c], [])]
      | (line, stop) :: more => (c :: line, stop) :: more := by
  rw [lines]
  · simp only [h]
    rfl
  · rintro rest rfl
    exact absurd rfl (ne_cr_of_not_break h)

theorem lines_ne_nil {s : List Char} (h : s ≠ []) : lines s ≠ [] := by
  cases s with
  | nil => exact absurd rfl h
  | cons c s =>
    intro hnil
    have hflat := flatten_splitlinesKeepends (c :: s)
    rw [splitlinesKeepends, hnil] at hflat
    cases hflat

theorem lines_append_newline (s t : List Char) :
    lines (s ++ '\n' :: t) = lines (s ++ ['\n']) ++ lines t := by
  induction s using lines.induct with
  | case1 => rfl
  | case2 rest ih => simpa [lines] using ih
  | case3 c rest hcrlf hbreak ih =>
    by_cases hcr : c = '\r' ∧ rest = []
    · obtain ⟨rfl, rfl⟩ := hcr
      rfl
    · have hfree : ∀ u : List Char, c = '\r' → (rest ++ '\n' :: u).head? ≠ some '\n' := by
        intro u hc
        cases rest with
        | nil => exact absurd ⟨hc, rfl⟩ hcr
        | cons d rest =>
          rintro hd
          obtain rfl := Option.some.inj hd
          exact hcrlf rest hc rfl
      rw [List.cons_append, List.cons_append, lines_cons_of_break (hfree t) hbreak,
        lines_cons_of_break (hfree []) hbreak, ih, List.cons_append]
  | case4 c rest hcrlf hbreak hrest ih =>
    rw [List.cons_append, List.cons_append, lines_cons_of_char _ hbreak,
      lines_cons_of_char _ hbreak, ih]
    cases hlines : lines (rest ++ ['\n']) with
    | nil => exact absurd hlines (lines_ne_nil (by simp))
    | cons l more => rfl
  | case5 c rest hcrlf hbreak line stop more hrest ih =>
    rw [List.cons_append, List.cons_append, lines_cons_of_char _ hbreak,
      lines_cons_of_char _ hbreak, ih]
    cases hlines : lines (rest ++ ['\n']) with
    | nil => exact absurd hlines (lines_ne_nil (by simp))
    | cons l more => rfl

theorem not_newline_of_not_break {c : Char} (h : ¬ isLineBreak c = true) : c ≠ '\n' := by
  rintro rfl
  exact h (by decide)

theorem lstrip_eq_nil_iff {s : List Char} : lstrip s = [] ↔ blank s = true := by
  simp [lstrip, blank, List.dropWhile_eq_nil_iff]

theorem blank_of_blank_lstrip {s : List Char} (h : blank (lstrip s) = true) : blank s = true := by
  rw [← lstrip_eq_nil_iff]
  cases hs : lstrip s with
  | nil => rfl
  | cons c cs =>
    have hhead := List.head?_dropWhile_not isSpace s
    rw [show s.dropWhile isSpace = c :: cs from hs] at hhead
    simp only [List.head?_cons] at hhead
    rw [hs] at h
    simp only [blank, List.all_cons, Bool.and_eq_true] at h
    simp [h.1] at hhead

theorem rstrip_eq_nil_iff {s : List Char} : rstrip s = [] ↔ blank s = true := by
  simp [rstrip, blank, List.rdropWhile_eq_nil_iff]

theorem isSpace_of_head?_strip {s : List Char} {c : Char} (h : (strip s).head? = some c) :
    isSpace c = false := by
  obtain ⟨t, ht⟩ : strip s <+: lstrip s := List.rdropWhile_prefix isSpace (lstrip s)
  have hhead : (s.dropWhile isSpace).head? = some c := by
    cases hstrip : strip s with
    | nil =>
      rw [hstrip] at h
      cases h
    | cons d rest =>
      rw [hstrip] at h ht
      rw [show s.dropWhile isSpace = lstrip s from rfl, ← ht]
      exact h
  have hnot := List.head?_dropWhile_not isSpace s
  rw [hhead] at hnot
  simpa using hnot

theorem lstrip_strip (s : List Char) : lstrip (strip s) = strip s := by
  cases hstrip : strip s with
  | nil => rfl
  | cons c rest =>
    have hspace : isSpace c = false := isSpace_of_head?_strip (s := s) (by rw [hstrip]; rfl)
    rw [lstrip, List.dropWhile_cons, hspace]
    rfl

theorem rstrip_append {s t : List Char} (h : blank t = false) : rstrip (s ++ t) = s ++ rstrip t := by
  have hne : (t.reverse.dropWhile isSpace).isEmpty = false := by
    have hnil : rstrip t ≠ [] := by
      rw [Ne, rstrip_eq_nil_iff, h]
      decide
    simpa [rstrip, List.rdropWhile] using hnil
  simp [rstrip, List.rdropWhile, List.dropWhile_append, hne]

theorem strip_eq_nil_iff {s : List Char} : strip s = [] ↔ blank s = true := by
  rw [strip, rstrip_eq_nil_iff]
  constructor
  · exact blank_of_blank_lstrip
  · intro h
    rw [lstrip_eq_nil_iff.mpr h]
    rfl

theorem rstrip_append_of_blank {s t : List Char} (h : blank t = true) :
    rstrip (s ++ t) = rstrip s := by
  have hall : ∀ c ∈ t.reverse, isSpace c = true := fun c hc =>
    List.all_eq_true.mp h c (List.mem_reverse.mp hc)
  unfold rstrip List.rdropWhile
  rw [List.reverse_append, List.dropWhile_append_of_pos hall]

theorem strip_append_of_blank {s t : List Char} (h : blank t = true) :
    strip (s ++ t) = strip s := by
  by_cases hs : blank s = true
  · have hboth : blank (s ++ t) = true := by
      rw [blank, List.all_append, Bool.and_eq_true]
      exact ⟨hs, h⟩
    rw [strip_eq_nil_iff.mpr hboth, strip_eq_nil_iff.mpr hs]
  · have hne : s.dropWhile isSpace ≠ [] := by
      rw [Ne, show s.dropWhile isSpace = lstrip s from rfl, lstrip_eq_nil_iff]
      exact hs
    have hl : lstrip (s ++ t) = lstrip s ++ t := by
      unfold lstrip
      rw [List.dropWhile_append]
      simp [hne]
    rw [strip, hl, rstrip_append_of_blank h]
    rfl

theorem isSpace_of_isLineBreak {c : Char} (h : isLineBreak c = true) : isSpace c = true := by
  unfold isLineBreak at h
  unfold isSpace
  simp only [Bool.or_eq_true, decide_eq_true_eq] at h ⊢
  omega

theorem blank_of_mem_lines {s : List Char} : ∀ l ∈ lines s, blank l.2 = true := by
  induction s using lines.induct with
  | case1 => simp [lines]
  | case2 rest ih =>
    intro l hl
    rcases List.mem_cons.mp hl with rfl | hl
    · rfl
    · exact ih l hl
  | case3 c rest hcrlf hbreak ih =>
    rw [lines]
    · simpa [hbreak, blank, isSpace_of_isLineBreak hbreak] using ih
    · exact hcrlf
  | case4 c rest hcrlf hbreak hrest ih =>
    rw [lines]
    · simp [hbreak, hrest, blank]
    · exact hcrlf
  | case5 c rest hcrlf hbreak line stop more hrest ih =>
    rw [lines]
    · rw [hrest] at ih
      simpa [hbreak, hrest] using ih
    · exact hcrlf

end PyText
