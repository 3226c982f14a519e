import GroundGraph.Ingestion.HeadingAgreement
import GroundGraph.Ingestion.LineMap

/-! Whether a protected range is the text of its lines. The chunker finds the lines of an item
by their numbers in the document, which the parser counts by newlines for a code block and by
`splitlines` for a table or a list item, and their offsets in a map that gives every line end
one character.
-/

set_option autoImplicit false

namespace GroundGraph.Ingestion

open PyText

namespace Section

/-- The text of the section in front of an item; `ls` are the lines of the document by which the
item is numbered. -/
def before (sec : Section) (ls : List (List Char × List Char)) (item : Int × Int) : List Char :=
  sec.body.take (lineBegin ls (item.1.toNat - 1) - sec.offset)

def through (sec : Section) (ls : List (List Char × List Char)) (item : Int × Int) : List Char :=
  sec.body.take (lineBegin ls item.2.toNat - sec.offset)

/-- The range of an item begins with the first character of its first line, and ends behind the
last character of its last line, at the latest behind what ends that line. -/
def Protects (sec : Section) (ls : List (List Char × List Char)) (item : Int × Int) : Prop :=
  ∃ p ∈ protectedRange (buildLineToCharMap sec.body) sec.startLine (sec.body.count '\n')
      sec.body.length item,
    p.1 = (sec.before ls item).length ∧
      (sec.through ls item).length ≤ p.2 + (lastStop (sec.through ls item)).length ∧
        p.2 ≤ (sec.through ls item).length

instance (sec : Section) (ls : List (List Char × List Char)) (item : Int × Int) :
    Decidable (sec.Protects ls item) :=
  inferInstanceAs (Decidable (∃ p ∈ protectedRange _ _ _ _ _, _))

/-- An item lies in a section: its first line begins in the text of the section, and so do the
others that are not blank, as the section is stripped of what is blank at its end. -/
structure Holds (sec : Section) (ls : List (List Char × List Char)) (item : Int × Int) :
    Prop where
  first_ge : sec.offset ≤ lineBegin ls (item.1.toNat - 1)
  first_lt : lineBegin ls (item.1.toNat - 1) < sec.offset + sec.body.length
  lines : ∀ k < item.2.toNat, item.1.toNat ≤ k + 1 → blank (ls.getD k ([], [])).1 = false →
    lineBegin ls k < sec.offset + sec.body.length

/-- For an item whose lines are those of `splitlines`: the section has as many newlines as it has
lines in front of the item, no carriage return with a newline ends one of these lines, and no more
of them end lines of the item than what ends its last line has characters, unless the section ends
with the item. -/
structure LinesInStep (sec : Section) (ls : List (List Char × List Char)) (item : Int × Int) :
    Prop where
  reached : (PyText.lines (sec.before ls item)).length ≤ sec.body.count '\n'
  first : crlfs (sec.before ls item) = 0
  last : sec.through ls item = sec.body ∨
    crlfs (sec.through ls item) ≤ (lastStop (sec.through ls item)).length

/-- For an item whose lines are counted by newlines: nothing else ends a line in front of the item,
and likewise. In the item nothing else does either, or only once, in front of the last line end. -/
structure NewlinesInStep (body : List Char) (sec : Section)
    (ls : List (List Char × List Char)) (item : Int × Int) : Prop where
  newlines : otherStops (body.take sec.offset ++ sec.before ls item) = 0
  first : crlfs (sec.before ls item) = 0
  last : (otherStops (body.take sec.offset ++ sec.through ls item) = 0 ∧
      (sec.through ls item = sec.body ∨
        crlfs (sec.through ls item) ≤ (lastStop (sec.through ls item)).length)) ∨
    (otherStops (body.take sec.offset ++ sec.through ls item) = 1 ∧
      (PyText.lines (sec.through ls item)).getLast?.map Prod.fst = some [] ∧
        (PyText.lines (sec.through ls item)).dropLast.countP isCrlf = 0)

/-! ## Where the section lies -/

structure Placed (body : List Char) (sec : Section) (m : Nat) : Prop where
  le : m ≤ (PyText.lines body).length
  offset : sec.offset = lineStart body m
  startLine : sec.startLine = ((1 + m : Nat) : Int)
  body : sec.body <+: body.drop sec.offset

end Section

theorem splitByHeading_placed (content : ParsedContent) :
    ∀ sec ∈ splitByHeading content, ∃ m, sec.Placed content.body m := by
  have hstarts := (splitByHeading_starts content (fun line offset =>
    ∃ m, m ≤ (lines content.body).length ∧ offset = lineStart content.body m ∧
      line = ((1 + m : Nat) : Int)) ⟨0, Nat.zero_le _, rfl, rfl⟩).mpr ?_
  · intro sec hsec
    obtain ⟨m, hle, hoffset, hline⟩ := hstarts sec hsec
    exact ⟨m, hle, hoffset, hline, splitByHeading_located content sec hsec⟩
  · intro m line hline _
    have hlt := (List.getElem?_eq_some_iff.mp hline).1
    rw [splitlinesKeepends, List.length_map] at hlt
    exact ⟨m, Nat.le_of_lt hlt, rfl, rfl⟩

namespace Section

variable {body : List Char} {sec : Section} {m : Nat}

theorem Placed.lineStart (h : sec.Placed body m) (k : Nat) :
    lineStart sec.body k = min (lineStart body (m + k) - sec.offset) sec.body.length := by
  rw [lineStart_of_isPrefix h.body, h.offset, lineStart_add, Nat.add_sub_cancel_left]

theorem Placed.offset_le (h : sec.Placed body m) : sec.offset ≤ body.length := by
  rw [h.offset]
  exact lineStart_le body m

theorem Placed.length_le (h : sec.Placed body m) :
    sec.offset + sec.body.length ≤ body.length := by
  have hle := h.body.length_le
  have hoffset := h.offset_le
  rw [List.length_drop] at hle
  omega

theorem Placed.exists_line (h : sec.Placed body m) {p : Nat} (hge : sec.offset ≤ p)
    (hp : LineStart body p ∨ sec.offset + sec.body.length ≤ p) :
    ∃ k, k ≤ (PyText.lines sec.body).length ∧
      PyText.lineStart sec.body k = min (p - sec.offset) sec.body.length := by
  by_cases hend : sec.offset + sec.body.length ≤ p
  · refine ⟨_, Nat.le_refl _, ?_⟩
    rw [lineStart_of_length_le (Nat.le_refl _)]
    omega
  · have hle := h.length_le
    have hstart := (hp.resolve_right hend).lineStart_eq (by omega)
    have hm : m ≤ lineAtOffset body p - 1 := by
      by_contra hlt
      have hbefore := lineStart_lt (s := body) (by have := h.le; omega) (Nat.not_le.mp hlt)
      rw [← h.offset, hstart] at hbefore
      omega
    obtain ⟨k, hk⟩ := Nat.exists_eq_add_of_le hm
    have hplace := h.lineStart k
    rw [← hk, hstart] at hplace
    exact ⟨k, Nat.le_of_lt (lineStart_lt_length.mp (by omega)), hplace⟩

theorem Placed.take_append (h : sec.Placed body m) (r : Nat) :
    body.take sec.offset ++ sec.body.take r = body.take (sec.offset + min r sec.body.length) := by
  rw [← List.length_take]
  exact (take_add_of_isPrefix ((List.take_prefix r _).trans h.body)).symm

theorem Placed.length_lines (h : sec.Placed body m) {k : Nat}
    (hk : k ≤ (PyText.lines sec.body).length) :
    (PyText.lines (body.take sec.offset ++ sec.body.take (PyText.lineStart sec.body k))).length =
      m + k := by
  have hpre : sec.body.take (PyText.lineStart sec.body k) <+:
      body.drop (PyText.lineStart body m) :=
    (List.take_prefix _ _).trans (h.offset ▸ h.body)
  have hle := h.le
  rw [h.offset, lines_append_of_isPrefix hpre, lines_take_lineStart, List.length_append,
    List.length_take, List.length_take, Nat.min_eq_left hle, Nat.min_eq_left hk]

theorem protects_iff_of_lines {ls : List (List Char × List Char)} {item : Int × Int} {i k : Nat}
    (hbefore : sec.before ls item = sec.body.take (PyText.lineStart sec.body i))
    (hthrough : sec.through ls item = sec.body.take (PyText.lineStart sec.body k)) :
    sec.Protects ls item ↔ ∃ i' j' : Nat, item.1 = sec.startLine + i' ∧
      item.2 = sec.startLine + j' ∧ i' ≤ sec.body.count '\n' ∧
        ((buildLineToCharMap sec.body)[i']?).getD 0 = PyText.lineStart sec.body i ∧
        PyText.lineStart sec.body i <
          ((buildLineToCharMap sec.body)[j' + 1]?).getD sec.body.length ∧
        PyText.lineStart sec.body k ≤
          ((buildLineToCharMap sec.body)[j' + 1]?).getD sec.body.length +
            (lastStop (sec.through ls item)).length ∧
        ((buildLineToCharMap sec.body)[j' + 1]?).getD sec.body.length ≤
          PyText.lineStart sec.body k := by
  have hlength : ∀ n, (sec.body.take (PyText.lineStart sec.body n)).length =
      PyText.lineStart sec.body n := by
    intro n
    rw [List.length_take, Nat.min_eq_left (lineStart_le _ n)]
  have hfront : (sec.before ls item).length = PyText.lineStart sec.body i := by
    rw [hbefore, hlength]
  have hback : (sec.through ls item).length = PyText.lineStart sec.body k := by
    rw [hthrough, hlength]
  unfold Protects
  rw [hfront, hback]
  constructor
  · rintro ⟨p, hp, hstart, hle, hge⟩
    obtain ⟨i', j', hi, hj, hreach, hmap, hmap', hlt⟩ := protectedRange_eq_some_iff.mp hp
    rw [← hmap'] at hle hge hlt
    exact ⟨i', j', hi, hj, hreach, hmap.trans hstart, hstart ▸ hlt, hle, hge⟩
  · rintro ⟨i', j', hi, hj, hreach, hmap, hlt, hle, hge⟩
    refine ⟨(PyText.lineStart sec.body i,
      ((buildLineToCharMap sec.body)[j' + 1]?).getD sec.body.length), ?_, rfl, hle, hge⟩
    exact protectedRange_eq_some_iff.mpr ⟨i', j', hi, hj, hreach, hmap, rfl, hlt⟩

/-- For an item whose first line is looked for under a number that is too small by `a`, and its last
under one that is too small by `b`. -/
theorem protects_iff_of_shift {ls : List (List Char × List Char)} {item : Int × Int}
    {i n a b : Nat} (hbefore : sec.before ls item = sec.body.take (PyText.lineStart sec.body i))
    (hthrough : sec.through ls item = sec.body.take (PyText.lineStart sec.body (n + 1)))
    (hin : i < (PyText.lines sec.body).length) (hle : i ≤ n)
    (hfirst : item.1 + a = sec.startLine + i) (hlast : item.2 + b = sec.startLine + n)
    (hlater : b = 0 ∨ i < n ∧ n < (PyText.lines sec.body).length) :
    sec.Protects ls item ↔ item.1 ≤ sec.startLine + sec.body.count '\n' ∧ a = 0 ∧
      crlfs (sec.before ls item) = 0 ∧
        (b = 0 ∧ (sec.through ls item = sec.body ∨
          crlfs (sec.through ls item) ≤ (lastStop (sec.through ls item)).length) ∨
        b = 1 ∧ (PyText.lines (sec.through ls item)).getLast?.map Prod.fst = some [] ∧
          (PyText.lines (sec.through ls item)).dropLast.countP isCrlf = 0) := by
  have hfront : crlfs (sec.before ls item) = crlfsBefore sec.body i := by
    rw [hbefore, crlfs_take]
  have hwhole : sec.through ls item = sec.body ∨
      crlfs (sec.through ls item) ≤ (lastStop (sec.through ls item)).length ↔
        (PyText.lines sec.body).length ≤ n + 1 ∨
          crlfsBefore sec.body (n + 1) ≤ (lastStop (sec.through ls item)).length := by
    rw [hthrough, take_lineStart_eq_self_iff, crlfs_take]
  rw [protects_iff_of_lines hbefore hthrough, hfront, hwhole]
  constructor
  · rintro ⟨i', j', hi', hj', hreach, hstart, _, hnear⟩
    obtain ⟨rfl, hcrlf⟩ := (getD_eq_start_iff (by omega) hin).mp hstart
    refine ⟨by omega, by omega, hcrlf, ?_⟩
    rcases Nat.lt_or_ge j' n with hearly | hown
    · obtain ⟨_, hlines⟩ := hlater.resolve_left (by omega)
      have hl := List.getElem?_eq_getElem hlines
      rw [hthrough, lastStop_take hl] at hnear
      obtain ⟨hn, hnil, hzero⟩ := (getD_near_later_stop_iff hearly hl).mp hnear
      rw [hthrough, getLast?_lines_take hl, dropLast_lines_take hlines]
      exact Or.inr ⟨by omega, congrArg some hnil, hzero⟩
    · obtain rfl : j' = n := by omega
      exact Or.inl ⟨by omega, getD_near_stop_iff.mp hnear⟩
  · rintro ⟨hreach, rfl, hcrlf, hor⟩
    have hown := (getD_eq_start_iff (Nat.le_refl i) hin).mpr ⟨rfl, hcrlf⟩
    rcases hor with ⟨rfl, hend⟩ | ⟨rfl, hnil, hzero⟩
    · exact ⟨i, n, by omega, by omega, by omega, hown, start_lt_getD (by omega) hin hcrlf,
        getD_near_stop_iff.mpr hend⟩
    · obtain ⟨hlt, hlines⟩ := hlater.resolve_left (by omega)
      have hl := List.getElem?_eq_getElem hlines
      obtain ⟨j, rfl⟩ : ∃ j, n = j + 1 := ⟨n - 1, by omega⟩
      rw [hthrough, getLast?_lines_take hl] at hnil
      rw [hthrough, dropLast_lines_take hlines] at hzero
      rw [hthrough, lastStop_take hl]
      exact ⟨i, j, by omega, by omega, by omega, hown, start_lt_getD (by omega) hin hcrlf,
        (getD_near_later_stop_iff (Nat.le_refl _) hl).mpr ⟨rfl, Option.some.inj hnil, hzero⟩⟩

/-! ## Tables and list items -/

theorem Placed.protects_lines_iff (h : sec.Placed body m) {item : Int × Int}
    (hin : InLines (PyText.lines body).length item)
    (hholds : sec.Holds (PyText.lines body) item) :
    sec.Protects (PyText.lines body) item ↔ sec.LinesInStep (PyText.lines body) item := by
  obtain ⟨hone, hle, hlast⟩ := hin
  have hge := hholds.first_ge
  have hlt := hholds.first_lt
  rw [lineBegin_lines] at hge hlt
  have hm : m ≤ item.1.toNat - 1 := by
    by_contra hbefore
    have hstart := lineStart_lt (s := body) (by have := h.le; omega) (Nat.not_le.mp hbefore)
    rw [← h.offset] at hstart
    omega
  obtain ⟨i, hi⟩ := Nat.exists_eq_add_of_le hm
  obtain ⟨n, hn⟩ := Nat.exists_eq_add_of_le (show m + 1 ≤ item.2.toNat by omega)
  have hbefore : sec.before (PyText.lines body) item =
      sec.body.take (PyText.lineStart sec.body i) := by
    rw [before, lineBegin_lines, List.take_eq_take_min, hi, ← h.lineStart]
  have hthrough : sec.through (PyText.lines body) item =
      sec.body.take (PyText.lineStart sec.body (n + 1)) := by
    rw [through, lineBegin_lines, List.take_eq_take_min, hn, show m + 1 + n = m + (n + 1) by omega,
      ← h.lineStart]
  have hiin : i < (PyText.lines sec.body).length := by
    rw [← lineStart_lt_length, h.lineStart, ← hi]
    omega
  have hline := h.startLine
  have hreached : (PyText.lines (sec.before (PyText.lines body) item)).length = i := by
    rw [hbefore, lines_take_lineStart, List.length_take, Nat.min_eq_left (Nat.le_of_lt hiin)]
  have hshift := protects_iff_of_shift (a := 0) (b := 0) hbefore hthrough hiin (by omega) (by omega)
    (by omega) (Or.inl rfl)
  rw [hshift]
  constructor
  · rintro ⟨hreach, _, hfirst, ⟨_, hend⟩ | ⟨hzero, _⟩⟩
    · exact ⟨by omega, hfirst, hend⟩
    · cases hzero
  · intro hstep
    have hreach := hstep.reached
    exact ⟨by omega, rfl, hstep.first, Or.inl ⟨rfl, hstep.last⟩⟩

end Section

/-! ## Code blocks -/

def isFence (l : List Char × List Char) : Prop := l.1.take 3 = "```".toList

theorem isFence.length_pos {l : List Char × List Char} (h : isFence l) : 0 < l.1.length := by
  rw [List.length_pos_iff]
  intro hnil
  rw [isFence, hnil] at h
  cases h

theorem isFence.not_blank {l : List Char × List Char} (h : isFence l) : blank l.1 = false := by
  rw [Bool.eq_false_iff]
  intro hblank
  have hin : Char.ofNat 0x60 ∈ l.1 := by
    refine List.mem_of_mem_take (i := 3) ?_
    rw [show l.1.take 3 = "```".toList from h]
    decide
  have hspace := List.all_eq_true.mp hblank _ hin
  revert hspace
  decide

theorem isFence.lineBegin_lt {ls : List (List Char × List Char)} {k : Nat}
    {l : List Char × List Char} (h : isFence l) (hl : ls[k]? = some l) :
    lineBegin ls k < lineBegin ls (k + 1) := by
  have hpos := h.length_pos
  rw [lineBegin_succ hl]
  omega

theorem mem_pairUp : ∀ {starts : List Int} {item : Int × Int}, starts.Pairwise (· < ·) →
    item ∈ pairUp starts → item.1 ∈ starts ∧ item.2 ∈ starts ∧ item.1 < item.2
  | [], _, _, h => by cases h
  | [_], _, _, h => by cases h
  | a :: b :: rest, item, hsorted, h => by
    rw [List.pairwise_cons, List.pairwise_cons] at hsorted
    rcases List.mem_cons.mp h with rfl | h
    · exact ⟨by simp, by simp, hsorted.1 b (by simp)⟩
    · obtain ⟨hfirst, hlast, hlt⟩ := mem_pairUp hsorted.2.2 h
      exact ⟨by simp [hfirst], by simp [hlast], hlt⟩

theorem fenceLines_sorted (body : List Char) : (fenceLines body).Pairwise (· < ·) :=
  (lineNumbers_sorted (fun l : List Char × List Char => l.1.take 3 = "```".toList)
    (newlineLines body) 1).1

theorem mem_fenceLines {body : List Char} {n : Int} (h : n ∈ fenceLines body) :
    ∃ l, (newlineLines body)[n.toNat - 1]? = some l ∧ isFence l := by
  obtain ⟨⟨l, k⟩, hmem, hsome⟩ := List.mem_filterMap.mp h
  obtain ⟨_, hget⟩ := List.mk_mem_zipIdx_iff_le_and_getElem?_sub.mp hmem
  split at hsome
  · rename_i hfence
    obtain rfl := Option.some.inj hsome
    exact ⟨l, hget, hfence⟩
  · cases hsome

theorem LineStart.length_lines {body : List Char} {p : Nat} (h : LineStart body p) :
    (lines (body.take p)).length = (body.take p).count '\n' + otherStops (body.take p) := by
  rcases h with rfl | ⟨before, hbefore⟩
  · rfl
  · rw [hbefore, lines_length (by simp), List.dropLast_concat]
    simp
    omega

theorem newlineLines_lineStart {body : List Char} {k : Nat} (h : k < (newlineLines body).length) :
    LineStart body (lineBegin (newlineLines body) k) := by
  cases k with
  | zero => exact Or.inl rfl
  | succ k => exact Or.inr (take_lineBegin_newline h)

namespace Section

variable {body : List Char} {sec : Section} {m : Nat}

/-- A code block in the lines of its section, from line `i` to in front of line `k`: the numbers
by which the chunker looks for them are too small by the other line ends in front. -/
structure BlockLines (body : List Char) (sec : Section) (m : Nat) (item : Int × Int) (i k : Nat) :
    Prop where
  before : sec.before (newlineLines body) item = sec.body.take (PyText.lineStart sec.body i)
  through : sec.through (newlineLines body) item = sec.body.take (PyText.lineStart sec.body k)
  lt : i + 1 < k
  le : k ≤ (PyText.lines sec.body).length
  first : item.1.toNat - 1 +
    otherStops (body.take sec.offset ++ sec.before (newlineLines body) item) = m + i
  last : item.2.toNat +
    otherStops (body.take sec.offset ++ sec.through (newlineLines body) item) = m + k
  newlines : item.1.toNat - 1 ≤ m + sec.body.count '\n'

theorem Placed.lines_before (h : sec.Placed body m) {n : Nat}
    (hn : lineBegin (newlineLines body) n < lineBegin (newlineLines body) (n + 1))
    (hstart : LineStart body (lineBegin (newlineLines body) n))
    (hge : sec.offset ≤ lineBegin (newlineLines body) n)
    (hlt : lineBegin (newlineLines body) n < sec.offset + sec.body.length) :
    ∃ i, PyText.lineStart sec.body i = lineBegin (newlineLines body) n - sec.offset ∧
      n + otherStops (body.take (lineBegin (newlineLines body) n)) = m + i ∧
      n ≤ m + sec.body.count '\n' := by
  obtain ⟨i, hi, hplace⟩ := h.exists_line hge (Or.inl hstart)
  rw [Nat.min_eq_left (by omega)] at hplace
  have happend := h.take_append (lineBegin (newlineLines body) n - sec.offset)
  rw [Nat.min_eq_left (by omega), Nat.add_sub_cancel' hge] at happend
  have hcount : (body.take (lineBegin (newlineLines body) n)).count '\n' = n :=
    count_take_newline (Nat.le_refl _) hn
  refine ⟨i, hplace, ?_, ?_⟩
  · have hlines := h.length_lines hi
    rw [hplace, happend, hstart.length_lines, hcount] at hlines
    exact hlines
  · have hfront := count_newline_le (body.take sec.offset)
    rw [h.offset, lines_take_lineStart, List.length_take, ← h.offset] at hfront
    have hback := (List.take_sublist (lineBegin (newlineLines body) n - sec.offset)
      sec.body).count_le '\n'
    rw [← happend, List.count_append] at hcount
    omega

theorem Placed.lines_through (h : sec.Placed body m) {n : Nat}
    (hn : lineBegin (newlineLines body) n < lineBegin (newlineLines body) (n + 1))
    (hlast : n < (newlineLines body).length)
    (hge : sec.offset ≤ lineBegin (newlineLines body) n)
    (hlt : lineBegin (newlineLines body) n < sec.offset + sec.body.length) :
    ∃ k, k ≤ (PyText.lines sec.body).length ∧
      PyText.lineStart sec.body k =
        min (lineBegin (newlineLines body) (n + 1) - sec.offset) sec.body.length ∧
      n + 1 + otherStops (body.take sec.offset ++
        sec.body.take (lineBegin (newlineLines body) (n + 1) - sec.offset)) = m + k := by
  have hlength := h.length_le
  have hbehind : LineStart body (lineBegin (newlineLines body) (n + 1)) ∨
      sec.offset + sec.body.length ≤ lineBegin (newlineLines body) (n + 1) := by
    rcases Nat.lt_or_ge (n + 1) (newlineLines body).length with hin | hout
    · exact Or.inl (newlineLines_lineStart hin)
    · have hend : n + 1 = (newlineLines body).length := by omega
      rw [hend, lineBegin_newlineLines_length]
      exact Or.inr hlength
  obtain ⟨k, hk, hplace⟩ := h.exists_line (by omega) hbehind
  refine ⟨k, hk, hplace, ?_⟩
  have hlines := h.length_lines hk
  rw [hplace, ← List.take_eq_take_min] at hlines
  have happend := h.take_append (lineBegin (newlineLines body) (n + 1) - sec.offset)
  have hsome : body.take (sec.offset +
      min (lineBegin (newlineLines body) (n + 1) - sec.offset) sec.body.length) ≠ [] := by
    rw [Ne, ← List.length_eq_zero_iff, List.length_take]
    omega
  have hcount := count_take_newline (s := body) (i := n) (q := sec.offset +
    min (lineBegin (newlineLines body) (n + 1) - sec.offset) sec.body.length - 1) (by omega)
    (by omega)
  rw [happend, PyText.lines_length hsome, List.dropLast_eq_take, List.length_take, List.take_take,
    Nat.min_eq_left (by omega), Nat.min_eq_left (by omega), hcount] at hlines
  rw [happend]
  omega

theorem Placed.blockLines (h : sec.Placed body m) {item : Int × Int}
    (hitem : item ∈ extractCodeBlocks body) (hholds : sec.Holds (newlineLines body) item) :
    ∃ i k, BlockLines body sec m item i k := by
  obtain ⟨hone, _, _⟩ := extractCodeBlocks_inLines body item hitem
  obtain ⟨hopen, hclose, hlt⟩ := mem_pairUp (fenceLines_sorted body) hitem
  obtain ⟨lo, hlo, hfenceo⟩ := mem_fenceLines hopen
  obtain ⟨lc, hlc, hfencec⟩ := mem_fenceLines hclose
  have hsucc : item.2.toNat - 1 + 1 = item.2.toNat := by omega
  have hgeo := hholds.first_ge
  have hlto := hholds.first_lt
  have hno := hfenceo.lineBegin_lt hlo
  have hnc := hfencec.lineBegin_lt hlc
  have hmono := lineBegin_mono (newlineLines body)
    (show item.1.toNat - 1 + 1 ≤ item.2.toNat - 1 by omega)
  have hgec : sec.offset ≤ lineBegin (newlineLines body) (item.2.toNat - 1) := by omega
  have hltc : lineBegin (newlineLines body) (item.2.toNat - 1) < sec.offset + sec.body.length := by
    refine hholds.lines _ (by omega) (by omega) ?_
    rw [List.getD_eq_getElem?_getD, hlc]
    exact hfencec.not_blank
  have hstarto := newlineLines_lineStart (List.getElem?_eq_some_iff.mp hlo).1
  have hstartc := newlineLines_lineStart (List.getElem?_eq_some_iff.mp hlc).1
  obtain ⟨i, hi, hfirst, hnewlines⟩ := h.lines_before hno hstarto hgeo hlto
  obtain ⟨c, hc, _, _⟩ := h.lines_before hnc hstartc hgec hltc
  obtain ⟨k, hk, hplace, hstops⟩ := h.lines_through hnc
    (List.getElem?_eq_some_iff.mp hlc).1 hgec hltc
  rw [hsucc] at hplace hstops hnc
  have hfront := h.take_append (lineBegin (newlineLines body) (item.1.toNat - 1) - sec.offset)
  rw [Nat.min_eq_left (by omega), Nat.add_sub_cancel' hgeo] at hfront
  have hic : i < c := lt_of_lineStart_lt (s := sec.body) (by omega)
  have hck : c < k := lt_of_lineStart_lt (s := sec.body) (by omega)
  refine ⟨i, k, ?_, ?_, by omega, hk, ?_, hstops, hnewlines⟩
  · rw [Section.before, hi]
  · rw [Section.through, List.take_eq_take_min, ← hplace]
  · rw [Section.before, hfront]
    exact hfirst

theorem Placed.protects_newlines_iff (h : sec.Placed body m) {item : Int × Int}
    (hitem : item ∈ extractCodeBlocks body) (hholds : sec.Holds (newlineLines body) item) :
    sec.Protects (newlineLines body) item ↔
      sec.NewlinesInStep body (newlineLines body) item := by
  obtain ⟨hone, hle, _⟩ := extractCodeBlocks_inLines body item hitem
  obtain ⟨i, k, hblock⟩ := h.blockLines hitem hholds
  have hlt := hblock.lt
  have hkle := hblock.le
  have hline := h.startLine
  have hfirst := hblock.first
  have hlast := hblock.last
  have hnewlines := hblock.newlines
  obtain ⟨n, rfl⟩ : ∃ n, k = n + 1 := ⟨k - 1, by omega⟩
  rw [protects_iff_of_shift hblock.before hblock.through (by omega) (by omega)
    (a := otherStops (body.take sec.offset ++ sec.before (newlineLines body) item))
    (b := otherStops (body.take sec.offset ++ sec.through (newlineLines body) item))
    (by omega) (by omega) (Or.inr ⟨by omega, by omega⟩)]
  constructor
  · rintro ⟨_, hnone, hcrlf, hend⟩
    exact ⟨hnone, hcrlf, hend⟩
  · intro hstep
    exact ⟨by omega, hstep.newlines, hstep.first, hstep.last⟩

end Section

/-! ## Markdown -/

/-- The range of an item that lies in a section is the text of its lines exactly when their
numbers and their offsets are in step with those of the section. -/
theorem markdown_protects_iff (bytes : List UInt8) :
    ∀ sec ∈ splitByHeading (parseMarkdown bytes),
      (∀ item ∈ (parseMarkdown bytes).codeBlocks,
        sec.Holds (newlineLines (parseMarkdown bytes).body) item →
          (sec.Protects (newlineLines (parseMarkdown bytes).body) item ↔
            sec.NewlinesInStep (parseMarkdown bytes).body
              (newlineLines (parseMarkdown bytes).body) item)) ∧
      (∀ item ∈ (parseMarkdown bytes).tables ++ (parseMarkdown bytes).listItems,
        sec.Holds (lines (parseMarkdown bytes).body) item →
          (sec.Protects (lines (parseMarkdown bytes).body) item ↔
            sec.LinesInStep (lines (parseMarkdown bytes).body) item)) := by
  intro sec hsec
  obtain ⟨m, hplaced⟩ := splitByHeading_placed _ sec hsec
  refine ⟨fun item hitem hholds => hplaced.protects_newlines_iff hitem hholds, ?_⟩
  intro item hitem hholds
  refine hplaced.protects_lines_iff ?_ hholds
  rw [← length_splitlines]
  rcases List.mem_append.mp hitem with hitem | hitem
  · exact extractTables_inLines _ item hitem
  · exact extractListItems_inLines _ item hitem

def blockAndItem : List UInt8 := "```\nx\n```\n- item".toList.map fun c => UInt8.ofNat c.toNat

theorem markdown_protects_blockAndItem :
    Section.Protects ⟨[], (parseMarkdown blockAndItem).body, 1, 0⟩
        (newlineLines (parseMarkdown blockAndItem).body) (1, 3) ∧
      Section.Protects ⟨[], (parseMarkdown blockAndItem).body, 1, 0⟩
        (lines (parseMarkdown blockAndItem).body) (4, 4) := by
  have hsec : ⟨[], (parseMarkdown blockAndItem).body, 1, 0⟩ ∈
      splitByHeading (parseMarkdown blockAndItem) := by
    rw [splitByHeading, if_pos (by decide +kernel)]
    exact List.mem_singleton_self _
  obtain ⟨hblock, hitem⟩ := markdown_protects_iff blockAndItem _ hsec
  constructor
  · refine (hblock (1, 3) (by decide +kernel) ?_).mpr ?_
    · exact ⟨by decide +kernel, by decide +kernel, by decide +kernel⟩
    · exact ⟨by decide +kernel, by decide +kernel,
        Or.inl ⟨by decide +kernel, Or.inr (by decide +kernel)⟩⟩
  · refine (hitem (4, 4) (by decide +kernel) ?_).mpr ?_
    · exact ⟨by decide +kernel, by decide +kernel, by decide +kernel⟩
    · exact ⟨by decide +kernel, by decide +kernel, Or.inr (by decide +kernel)⟩

def crlfItems : List UInt8 := "- a\r\n- b".toList.map fun c => UInt8.ofNat c.toNat

/-- The range of the second begins one character early, at the newline. -/
theorem not_markdown_protects : ¬ ∀ bytes, ∀ sec ∈ splitByHeading (parseMarkdown bytes),
    (∀ item ∈ (parseMarkdown bytes).codeBlocks,
      sec.Holds (newlineLines (parseMarkdown bytes).body) item →
        sec.Protects (newlineLines (parseMarkdown bytes).body) item) ∧
    (∀ item ∈ (parseMarkdown bytes).tables ++ (parseMarkdown bytes).listItems,
      sec.Holds (lines (parseMarkdown bytes).body) item →
        sec.Protects (lines (parseMarkdown bytes).body) item) := by
  intro h
  have hsec : ⟨[], (parseMarkdown crlfItems).body, 1, 0⟩ ∈
      splitByHeading (parseMarkdown crlfItems) := by
    rw [splitByHeading, if_pos (by decide +kernel)]
    exact List.mem_singleton_self _
  have hprotects := (h crlfItems _ hsec).2 (2, 2) (by decide +kernel)
    ⟨by decide +kernel, by decide +kernel, by decide +kernel⟩
  revert hprotects
  decide +kernel

end GroundGraph.Ingestion
