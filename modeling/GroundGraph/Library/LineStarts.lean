import GroundGraph.Library.PyText
import Mathlib.Data.List.TakeDrop
import Mathlib.Data.Nat.Find

/-! Where the lines of a text begin: those of `splitlines` and those that newlines end. -/

set_option autoImplicit false

namespace PyText

/-- A text from its end: in front of it stands a line end of two characters, one of a single
character, or a character of the line. -/
@[elab_as_elim]
theorem lines_induction {motive : List Char → Prop} (nil : motive [])
    (crlf : ∀ s, motive s → motive ('\r' :: '\n' :: s))
    (stop : ∀ c s, (c = '\r' → s.head? ≠ some '\n') → isLineBreak c = true → motive s →
      motive (c :: s))
    (char : ∀ c s, ¬ isLineBreak c = true → motive s → motive (c :: s)) (s : List Char) :
    motive s := by
  induction s using lines.induct with
  | case1 => exact nil
  | case2 rest ih => exact crlf rest ih
  | case3 c rest hcrlf hbreak ih =>
    refine stop c rest ?_ hbreak ih
    intro hc hhead
    obtain ⟨tail, rfl⟩ := List.head?_eq_some_iff.mp hhead
    exact hcrlf tail hc rfl
  | case4 c rest _ hbreak _ ih => exact char c rest hbreak ih
  | case5 c rest _ hbreak _ _ _ _ ih => exact char c rest hbreak ih

/-- Where line `i` begins, counted from zero; behind the last line, where the text ends. -/
def lineStart (s : List Char) (i : Nat) : Nat := ((splitlinesKeepends s).take i).flatten.length

@[simp] theorem lineStart_zero (s : List Char) : lineStart s 0 = 0 := rfl

@[simp] theorem lineStart_nil (i : Nat) : lineStart [] i = 0 := by
  simp [lineStart, splitlinesKeepends, lines]

theorem lineStart_crlf (s : List Char) (i : Nat) :
    lineStart ('\r' :: '\n' :: s) (i + 1) = lineStart s i + 2 := by
  simp [lineStart, splitlinesKeepends, lines]

theorem lineStart_break {c : Char} {s : List Char} (hcrlf : c = '\r' → s.head? ≠ some '\n')
    (h : isLineBreak c = true) (i : Nat) : lineStart (c :: s) (i + 1) = lineStart s i + 1 := by
  simp [lineStart, splitlinesKeepends, lines_cons_of_break hcrlf h, Nat.add_comm]

theorem lineStart_char {c : Char} (s : List Char) (h : ¬ isLineBreak c = true) (i : Nat) :
    lineStart (c :: s) (i + 1) = lineStart s (i + 1) + 1 := by
  unfold lineStart splitlinesKeepends
  rw [lines_cons_of_char s h]
  cases lines s with
  | nil => simp
  | cons l ls =>
    simp only [List.map_cons, List.take_succ_cons, List.flatten_cons, List.length_append,
      List.length_cons]
    omega

theorem line_ne_nil {s : List Char} : ∀ l ∈ lines s, l.1 ++ l.2 ≠ [] := by
  induction s using lines_induction with
  | nil => simp [lines]
  | crlf s ih => simpa [lines] using ih
  | stop c s hcrlf hbreak ih => simpa [lines_cons_of_break hcrlf hbreak] using ih
  | char c s hbreak ih =>
    rw [lines_cons_of_char s hbreak]
    cases hs : lines s with
    | nil => simp
    | cons l ls =>
      intro l' hl'
      rcases List.mem_cons.mp hl' with rfl | hl'
      · simp
      · exact ih l' (hs ▸ List.mem_cons_of_mem l hl')

theorem breaks_of_mem_lines {s : List Char} : ∀ l ∈ lines s,
    (∀ c ∈ l.1, isLineBreak c = false) ∧ ∀ c ∈ l.2.head?, isLineBreak c = true := by
  induction s using lines_induction with
  | nil => simp [lines]
  | crlf s ih =>
    rw [show lines ('\r' :: '\n' :: s) = ([], ['\r', '\n']) :: lines s from rfl,
      List.forall_mem_cons]
    refine ⟨⟨List.forall_mem_nil _, fun c hc => ?_⟩, ih⟩
    obtain rfl := Option.some.inj hc
    rfl
  | stop c s hcrlf hbreak ih =>
    rw [lines_cons_of_break hcrlf hbreak, List.forall_mem_cons]
    exact ⟨by simpa using hbreak, ih⟩
  | char c s hbreak ih =>
    rw [lines_cons_of_char s hbreak]
    cases hs : lines s with
    | nil => simpa using hbreak
    | cons l ls =>
      rw [hs, List.forall_mem_cons] at ih
      rw [List.forall_mem_cons]
      refine ⟨⟨?_, ih.1.2⟩, ih.2⟩
      rw [List.forall_mem_cons]
      exact ⟨by simpa using hbreak, ih.1.1⟩

theorem splitlines_append_newline (s t : List Char) :
    splitlines (s ++ '\n' :: t) = splitlines (s ++ ['\n']) ++ splitlines t := by
  rw [splitlines, lines_append_newline, List.map_append]
  rfl

theorem splitlines_flatten (texts : List (List Char)) :
    splitlines (texts.map fun s => s ++ ['\n']).flatten =
      texts.flatMap fun s => splitlines (s ++ ['\n']) := by
  induction texts with
  | nil => rfl
  | cons s rest ih =>
    rw [List.map_cons, List.flatten_cons, List.append_assoc, List.singleton_append,
      splitlines_append_newline, ih, List.flatMap_cons]

theorem splitlines_of_no_break {s : List Char} (h : ∀ c ∈ s, isLineBreak c = false) :
    splitlines (s ++ ['\n']) = [s] := by
  induction s with
  | nil => rfl
  | cons c s ih =>
    obtain ⟨hc, hs⟩ := List.forall_mem_cons.mp h
    have hrest := ih hs
    unfold splitlines at hrest ⊢
    rw [List.cons_append, lines_cons_of_char _ (by simp [hc])]
    cases hlines : lines (s ++ ['\n']) with
    | nil => exact absurd hlines (lines_ne_nil (by simp))
    | cons l more =>
      rw [hlines, List.map_cons] at hrest
      obtain ⟨hl, hmore⟩ := List.cons.inj hrest
      simp [hl, hmore]

theorem stop_ne_nil {s : List Char} : ∀ l ∈ (lines s).dropLast, l.2 ≠ [] := by
  have hcons : ∀ (first : List Char × List Char) (ls : List (List Char × List Char)),
      first.2 ≠ [] → (∀ l ∈ ls.dropLast, l.2 ≠ []) → ∀ l ∈ (first :: ls).dropLast, l.2 ≠ [] := by
    intro first ls hfirst hls
    cases ls with
    | nil => simp
    | cons next ls =>
      rw [List.dropLast_cons_cons, List.forall_mem_cons]
      exact ⟨hfirst, hls⟩
  induction s using lines_induction with
  | nil => simp [lines]
  | crlf s ih => exact hcons _ _ (by simp) ih
  | stop c s hcrlf hbreak ih =>
    rw [lines_cons_of_break hcrlf hbreak]
    exact hcons _ _ (by simp) ih
  | char c s hbreak ih =>
    rw [lines_cons_of_char s hbreak]
    cases hs : lines s with
    | nil => simp
    | cons l ls =>
      rw [hs] at ih
      cases ls with
      | nil => simp
      | cons next ls =>
        rw [List.dropLast_cons_cons, List.forall_mem_cons] at ih ⊢
        exact ih

theorem stop_length {s : List Char} {i : Nat} {l : List Char × List Char}
    (h : (lines s)[i]? = some l) (hi : i + 1 < (lines s).length) :
    l.2.length = if l.2 = ['\r', '\n'] then 2 else 1 := by
  have hmem : l ∈ (lines s).dropLast := by
    rw [List.dropLast_eq_take]
    refine List.mem_of_getElem? (i := i) ?_
    rw [List.getElem?_take_of_lt (by omega), h]
  rcases (newline_of_mem_lines l (List.mem_of_getElem? h)).2 with hstop | hstop | ⟨c, hstop⟩
  · exact absurd hstop (stop_ne_nil l hmem)
  · simp [hstop]
  · simp [hstop]

theorem lineStart_succ {s : List Char} {i : Nat} {l : List Char × List Char}
    (h : (lines s)[i]? = some l) :
    lineStart s (i + 1) = lineStart s i + (l.1.length + l.2.length) := by
  have hkept : (splitlinesKeepends s)[i]? = some (l.1 ++ l.2) := by
    rw [splitlinesKeepends, List.getElem?_map, h]
    rfl
  rw [lineStart, List.take_add_one, hkept]
  simp [lineStart]

theorem lineStart_of_length_le {s : List Char} {i : Nat} (h : (lines s).length ≤ i) :
    lineStart s i = s.length := by
  rw [lineStart, List.take_of_length_le (by simpa [splitlinesKeepends] using h),
    flatten_splitlinesKeepends]

theorem lineStart_lt_succ {s : List Char} {i : Nat} (h : i < (lines s).length) :
    lineStart s i < lineStart s (i + 1) := by
  have hget := List.getElem?_eq_getElem h
  have hne := List.length_pos_iff.mpr (line_ne_nil _ (List.getElem_mem h))
  rw [List.length_append] at hne
  rw [lineStart_succ hget]
  omega

theorem lineStart_mono (s : List Char) {i j : Nat} (h : i ≤ j) : lineStart s i ≤ lineStart s j := by
  induction h with
  | refl => exact Nat.le_refl _
  | @step j _ ih =>
    refine ih.trans ?_
    by_cases hj : j < (lines s).length
    · exact Nat.le_of_lt (lineStart_lt_succ hj)
    · rw [lineStart_of_length_le (Nat.not_lt.mp hj),
        lineStart_of_length_le (Nat.le_succ_of_le (Nat.not_lt.mp hj))]

theorem lineStart_lt {s : List Char} {i j : Nat} (hi : i < (lines s).length) (h : i < j) :
    lineStart s i < lineStart s j :=
  Nat.lt_of_lt_of_le (lineStart_lt_succ hi) (lineStart_mono s h)

theorem lt_of_lineStart_lt {s : List Char} {i j : Nat} (h : lineStart s i < lineStart s j) :
    i < j := by
  by_contra hle
  exact absurd (lineStart_mono s (Nat.not_lt.mp hle)) (Nat.not_le.mpr h)

theorem lineStart_le (s : List Char) (i : Nat) : lineStart s i ≤ s.length := by
  by_cases h : (lines s).length ≤ i
  · exact Nat.le_of_eq (lineStart_of_length_le h)
  · have hend := lineStart_of_length_le (Nat.le_refl (lines s).length)
    rw [← hend]
    exact lineStart_mono s (Nat.le_of_not_le h)

theorem lineStart_lt_length {s : List Char} {i : Nat} :
    lineStart s i < s.length ↔ i < (lines s).length := by
  constructor
  · intro h
    by_contra hle
    rw [lineStart_of_length_le (Nat.not_lt.mp hle)] at h
    exact Nat.lt_irrefl _ h
  · intro h
    exact Nat.lt_of_lt_of_le (lineStart_lt_succ h) (lineStart_le s _)

theorem take_lineStart_eq_self_iff {s : List Char} {i : Nat} :
    s.take (lineStart s i) = s ↔ (lines s).length ≤ i := by
  rw [List.take_eq_self_iff, ← Nat.not_lt, lineStart_lt_length, Nat.not_lt]

theorem lines_split (s : List Char) (i : Nat) :
    lines (s.take (lineStart s i)) = (lines s).take i ∧
      lines (s.drop (lineStart s i)) = (lines s).drop i := by
  induction s using lines_induction generalizing i with
  | nil => simp [lines]
  | crlf s ih =>
    cases i with
    | zero => exact ⟨rfl, rfl⟩
    | succ i =>
      obtain ⟨htake, hdrop⟩ := ih i
      rw [lineStart_crlf]
      simp only [List.take_succ_cons, List.drop_succ_cons, lines, htake, hdrop]
      exact ⟨trivial, trivial⟩
  | stop c s hcrlf hbreak ih =>
    cases i with
    | zero => exact ⟨rfl, rfl⟩
    | succ i =>
      obtain ⟨htake, hdrop⟩ := ih i
      have hfree : c = '\r' → (s.take (lineStart s i)).head? ≠ some '\n' := by
        intro hc hhead
        obtain ⟨tail, htail⟩ := List.head?_eq_some_iff.mp hhead
        obtain ⟨more, hmore⟩ := List.take_prefix (lineStart s i) s
        refine hcrlf hc ?_
        rw [← hmore, htail]
        rfl
      rw [lineStart_break hcrlf hbreak, List.take_succ_cons, List.drop_succ_cons,
        lines_cons_of_break hfree hbreak, lines_cons_of_break hcrlf hbreak, htake, hdrop]
      exact ⟨rfl, rfl⟩
  | char c s hbreak ih =>
    cases i with
    | zero => exact ⟨rfl, rfl⟩
    | succ i =>
      obtain ⟨htake, hdrop⟩ := ih (i + 1)
      rw [lineStart_char _ hbreak, List.take_succ_cons, List.drop_succ_cons,
        lines_cons_of_char _ hbreak, lines_cons_of_char _ hbreak, htake, hdrop]
      cases lines s with
      | nil => simp
      | cons l ls => exact ⟨rfl, rfl⟩

theorem lines_take_lineStart (s : List Char) (i : Nat) :
    lines (s.take (lineStart s i)) = (lines s).take i :=
  (lines_split s i).1

def lastStop (s : List Char) : List Char := ((lines s).getLast?.map Prod.snd).getD []

theorem getLast?_lines_take {s : List Char} {i : Nat} {l : List Char × List Char}
    (h : (lines s)[i]? = some l) : (lines (s.take (lineStart s (i + 1)))).getLast? = some l := by
  rw [lines_take_lineStart, List.take_add_one, h, Option.toList_some, List.getLast?_concat]

theorem lastStop_take {s : List Char} {i : Nat} {l : List Char × List Char}
    (h : (lines s)[i]? = some l) : lastStop (s.take (lineStart s (i + 1))) = l.2 := by
  rw [lastStop, getLast?_lines_take h]
  rfl

theorem dropLast_lines_take {s : List Char} {i : Nat} (h : i < (lines s).length) :
    (lines (s.take (lineStart s (i + 1)))).dropLast = (lines s).take i := by
  rw [lines_take_lineStart, List.dropLast_eq_take, List.length_take, Nat.min_eq_left h,
    List.take_take, Nat.succ_sub_one, Nat.min_eq_left (Nat.le_succ i)]

theorem lines_drop_lineStart (s : List Char) (i : Nat) :
    lines (s.drop (lineStart s i)) = (lines s).drop i :=
  (lines_split s i).2

theorem lineStart_add (s : List Char) (m i : Nat) :
    lineStart s (m + i) = lineStart s m + lineStart (s.drop (lineStart s m)) i := by
  have hdrop : splitlinesKeepends (s.drop (lineStart s m)) = (splitlinesKeepends s).drop m := by
    rw [splitlinesKeepends, lines_drop_lineStart, List.map_drop]
    rfl
  unfold lineStart at hdrop ⊢
  rw [hdrop, List.take_add, List.flatten_append, List.length_append]

theorem drop_lineStart (s : List Char) (i : Nat) :
    s.drop (lineStart s i) = ((splitlinesKeepends s).drop i).flatten := by
  rw [← flatten_splitlinesKeepends (s.drop (lineStart s i)), splitlinesKeepends,
    lines_drop_lineStart, List.map_drop]
  rfl

theorem drop_lineStart_cons {s line : List Char} {i : Nat}
    (h : (splitlinesKeepends s)[i]? = some line) :
    s.drop (lineStart s i) = line ++ ((splitlinesKeepends s).drop (i + 1)).flatten := by
  obtain ⟨hi, rfl⟩ := List.getElem?_eq_some_iff.mp h
  rw [drop_lineStart, List.drop_eq_getElem_cons hi, List.flatten_cons]

theorem drop_succ_of_no_stop {s : List Char} {i : Nat} {l : List Char × List Char}
    (h : (lines s)[i]? = some l) (hstop : l.2 = []) : (splitlinesKeepends s).drop (i + 1) = [] := by
  have hlast : (lines s).length ≤ i + 1 := by
    by_contra hlt
    have hlength := stop_length h (Nat.not_le.mp hlt)
    rw [hstop] at hlength
    split at hlength <;> cases hlength
  rw [List.drop_eq_nil_iff]
  simpa [splitlinesKeepends] using hlast

theorem lineStart_of_isPrefix {t s : List Char} (h : t <+: s) (i : Nat) :
    lineStart t i = min (lineStart s i) t.length := by
  obtain ⟨u, rfl⟩ := h
  induction t using lines_induction generalizing i with
  | nil => simp
  | crlf t ih =>
    cases i with
    | zero => simp
    | succ i =>
      simp only [List.cons_append, lineStart_crlf, ih i, List.length_cons]
      omega
  | stop c t hcrlf hbreak ih =>
    cases i with
    | zero => simp
    | succ i =>
      rw [lineStart_break hcrlf hbreak, List.length_cons]
      by_cases ht : t = []
      · subst ht
        have hsome : 0 < (lines ([c] ++ u)).length :=
          List.length_pos_of_ne_nil (lines_ne_nil (by simp))
        have hlt : 0 < lineStart ([c] ++ u) (i + 1) := lineStart_lt hsome (Nat.succ_pos i)
        simp only [lineStart_nil, List.length_nil]
        omega
      · have hfree : c = '\r' → (t ++ u).head? ≠ some '\n' := by
          rwa [List.head?_append_of_ne_nil t ht]
        rw [List.cons_append, lineStart_break hfree hbreak, ih i]
        omega
  | char c t hbreak ih =>
    cases i with
    | zero => simp
    | succ i =>
      rw [List.cons_append, lineStart_char _ hbreak, lineStart_char _ hbreak, ih (i + 1),
        List.length_cons]
      omega

theorem lines_append_of_isPrefix {s t : List Char} {m : Nat}
    (h : t <+: s.drop (lineStart s m)) :
    lines (s.take (lineStart s m) ++ t) = (lines s).take m ++ lines t := by
  have hlength : (s.take (lineStart s m)).length = lineStart s m := by
    rw [List.length_take, Nat.min_eq_left (lineStart_le s m)]
  have hpre : s.take (lineStart s m) ++ t <+: s := by
    rw [← take_add_of_isPrefix h]
    exact List.take_prefix _ _
  have hstart : lineStart (s.take (lineStart s m) ++ t) m = lineStart s m := by
    rw [lineStart_of_isPrefix hpre, List.length_append, hlength]
    omega
  obtain ⟨htake, hdrop⟩ := lines_split (s.take (lineStart s m) ++ t) m
  rw [hstart, List.take_left' hlength, lines_take_lineStart] at htake
  rw [hstart, List.drop_left' hlength] at hdrop
  rw [← List.take_append_drop m (lines (s.take (lineStart s m) ++ t)), ← htake, ← hdrop]

theorem lineStart_le_of_count_newline {s : List Char} {c i : Nat}
    (h : i ≤ (s.take c).count '\n') : lineStart s i ≤ c := by
  induction s using lines_induction generalizing c i with
  | nil => simp
  | crlf s ih =>
    cases i with
    | zero => simp
    | succ i =>
      rcases c with _ | _ | c
      · simp at h
      · simp at h
      · have hle : lineStart s i ≤ c := ih (by simpa using h)
        rw [lineStart_crlf]
        omega
  | stop d s hcrlf hbreak ih =>
    cases i with
    | zero => simp
    | succ i =>
      cases c with
      | zero => simp at h
      | succ c =>
        rw [List.take_succ_cons, List.count_cons] at h
        have hle : lineStart s i ≤ c := ih (by split at h <;> omega)
        rw [lineStart_break hcrlf hbreak]
        omega
  | char d s hbreak ih =>
    cases i with
    | zero => simp
    | succ i =>
      cases c with
      | zero => simp at h
      | succ c =>
        rw [List.take_succ_cons, List.count_cons_of_ne (not_newline_of_not_break hbreak)] at h
        have hle : lineStart s (i + 1) ≤ c := ih h
        rw [lineStart_char s hbreak]
        omega

/-! ## Lines of either kind -/

def lineBegin (ls : List (List Char × List Char)) (i : Nat) : Nat :=
  ((ls.take i).map fun l => l.1 ++ l.2).flatten.length

theorem lineBegin_lines (s : List Char) (i : Nat) : lineBegin (lines s) i = lineStart s i := by
  rw [lineBegin, List.map_take]
  rfl

theorem lineBegin_succ {ls : List (List Char × List Char)} {i : Nat} {l : List Char × List Char}
    (h : ls[i]? = some l) : lineBegin ls (i + 1) = lineBegin ls i + (l.1.length + l.2.length) := by
  rw [lineBegin, List.take_add_one, h]
  simp [lineBegin]

theorem lineBegin_mono (ls : List (List Char × List Char)) {i j : Nat} (h : i ≤ j) :
    lineBegin ls i ≤ lineBegin ls j := by
  obtain ⟨d, rfl⟩ := Nat.exists_eq_add_of_le h
  simp [lineBegin, List.take_add]

theorem getElem?_line {ls : List (List Char × List Char)} {s : List Char}
    (h : (ls.map fun l => l.1 ++ l.2).flatten = s) {i : Nat} {l : List Char × List Char}
    (hl : ls[i]? = some l) {j : Nat} (hj : j < l.1.length + l.2.length) :
    s[lineBegin ls i + j]? = (l.1 ++ l.2)[j]? := by
  obtain ⟨hi, rfl⟩ := List.getElem?_eq_some_iff.mp hl
  have hsplit : s = ((ls.take i).map fun l => l.1 ++ l.2).flatten ++
      ((ls[i].1 ++ ls[i].2) ++ ((ls.drop (i + 1)).map fun l => l.1 ++ l.2).flatten) := by
    conv_lhs => rw [← h, ← List.take_append_drop i ls, List.drop_eq_getElem_cons hi]
    rw [List.map_append, List.flatten_append, List.map_cons, List.flatten_cons]
  have hlength : ((ls.take i).map fun l => l.1 ++ l.2).flatten.length = lineBegin ls i := rfl
  rw [← List.length_append] at hj
  rw [hsplit, List.getElem?_append_right (by omega), hlength, Nat.add_sub_cancel_left,
    List.getElem?_append_left hj]

/-! ## Lines that newlines end -/

theorem newlineLines_newline (s : List Char) :
    newlineLines ('\n' :: s) = ([], ['\n']) :: newlineLines s := rfl

theorem newlineLines_char {c : Char} (h : c ≠ '\n') (s : List Char) :
    ∃ line stop more, newlineLines s = (line, stop) :: more ∧
      newlineLines (c :: s) = (c :: line, stop) :: more := by
  rw [newlineLines, if_neg h]
  cases hs : newlineLines s with
  | nil =>
    cases s with
    | nil => cases hs
    | cons d s =>
      unfold newlineLines at hs
      split at hs
      · cases hs
      · split at hs <;> cases hs
  | cons l more => exact ⟨l.1, l.2, more, rfl, rfl⟩

theorem stop_of_mem_newlineLines {s : List Char} :
    ∀ l ∈ newlineLines s, l.2 = [] ∨ l.2 = ['\n'] := by
  induction s with
  | nil => simp [newlineLines]
  | cons c s ih =>
    by_cases hc : c = '\n'
    · subst hc
      rw [newlineLines_newline, List.forall_mem_cons]
      exact ⟨Or.inr rfl, ih⟩
    · obtain ⟨line, stop, more, hs, hcons⟩ := newlineLines_char hc s
      rw [hs, List.forall_mem_cons] at ih
      rw [hcons, List.forall_mem_cons]
      exact ih

theorem lineBegin_newline (s : List Char) (i : Nat) :
    lineBegin (newlineLines ('\n' :: s)) (i + 1) = lineBegin (newlineLines s) i + 1 := by
  rw [newlineLines_newline]
  simp [lineBegin, Nat.add_comm]

theorem lineBegin_char {c : Char} (h : c ≠ '\n') (s : List Char) (i : Nat) :
    lineBegin (newlineLines (c :: s)) (i + 1) = lineBegin (newlineLines s) (i + 1) + 1 := by
  obtain ⟨line, stop, more, hs, hcons⟩ := newlineLines_char h s
  rw [hs, hcons]
  simp only [lineBegin, List.take_succ_cons, List.map_cons, List.flatten_cons, List.length_append,
    List.length_cons]
  omega

theorem lineBegin_newlineLines_length (s : List Char) :
    lineBegin (newlineLines s) (newlineLines s).length = s.length := by
  rw [lineBegin, List.take_length, flatten_newlineLines]

theorem count_take_newline {s : List Char} {i q : Nat} (h : lineBegin (newlineLines s) i ≤ q)
    (hlt : q < lineBegin (newlineLines s) (i + 1)) : (s.take q).count '\n' = i := by
  induction s generalizing i q with
  | nil =>
    have hnone : lineBegin (newlineLines []) (i + 1) = 0 := by simp [lineBegin, newlineLines]
    omega
  | cons c s ih =>
    by_cases hc : c = '\n'
    · subst hc
      rw [lineBegin_newline] at hlt
      cases i with
      | zero =>
        obtain rfl : q = 0 := Nat.lt_one_iff.mp hlt
        rfl
      | succ i =>
        rw [lineBegin_newline] at h
        obtain ⟨q, rfl⟩ : ∃ r, q = r + 1 := ⟨q - 1, by omega⟩
        rw [List.take_succ_cons, List.count_cons_self, ih (Nat.le_of_succ_le_succ h)
          (Nat.lt_of_succ_lt_succ hlt)]
    · rw [lineBegin_char hc] at hlt
      cases q with
      | zero =>
        cases i with
        | zero => rfl
        | succ i =>
          rw [lineBegin_char hc] at h
          omega
      | succ q =>
        rw [List.take_succ_cons, List.count_cons_of_ne hc]
        refine ih ?_ (Nat.lt_of_succ_lt_succ hlt)
        cases i with
        | zero => exact Nat.zero_le q
        | succ i =>
          rw [lineBegin_char hc] at h
          exact Nat.le_of_succ_le_succ h

theorem count_take_lt_iff {s : List Char} {q n : Nat} (h : q < s.length) :
    (s.take q).count '\n' < n ↔ q < lineBegin (newlineLines s) n := by
  have hexists : ∃ n, q < lineBegin (newlineLines s) n :=
    ⟨_, by rwa [lineBegin_newlineLines_length]⟩
  obtain ⟨i, hi⟩ : ∃ i, Nat.find hexists = i + 1 := by
    refine Nat.exists_eq_succ_of_ne_zero fun hzero => ?_
    have hfirst := Nat.find_spec hexists
    rw [hzero] at hfirst
    exact absurd hfirst (Nat.not_lt_zero q)
  have hlt := Nat.find_spec hexists
  have hle := Nat.not_lt.mp (Nat.find_min hexists (m := i) (by omega))
  rw [hi] at hlt
  rw [count_take_newline hle hlt]
  constructor
  · intro hn
    exact Nat.lt_of_lt_of_le hlt (lineBegin_mono _ hn)
  · intro hq
    by_contra hn
    have hmono := lineBegin_mono (newlineLines s) (Nat.not_lt.mp hn)
    omega

theorem take_lineBegin_newline {s : List Char} {i : Nat} (h : i + 1 < (newlineLines s).length) :
    ∃ before, s.take (lineBegin (newlineLines s) (i + 1)) = before ++ ['\n'] := by
  induction s generalizing i with
  | nil => simp [newlineLines] at h
  | cons c s ih =>
    by_cases hc : c = '\n'
    · subst hc
      rw [newlineLines_newline, List.length_cons] at h
      rw [lineBegin_newline, List.take_succ_cons]
      cases i with
      | zero => exact ⟨[], rfl⟩
      | succ i =>
        obtain ⟨before, hbefore⟩ := ih (Nat.lt_of_succ_lt_succ h)
        exact ⟨'\n' :: before, by rw [hbefore, List.cons_append]⟩
    · obtain ⟨line, stop, more, hs, hcons⟩ := newlineLines_char hc s
      rw [lineBegin_char hc, List.take_succ_cons]
      rw [hcons, List.length_cons] at h
      obtain ⟨before, hbefore⟩ := ih (by rw [hs, List.length_cons]; exact h)
      exact ⟨c :: before, by rw [hbefore, List.cons_append]⟩

/-! ## How many lines -/

/-- How many lines in front of the last one end with something else than a newline. -/
def otherStops (s : List Char) : Nat :=
  (lines s).dropLast.countP fun l => decide (l.2.getLast? ≠ some '\n')

theorem count_newline_le (s : List Char) : s.count '\n' ≤ (lines s).length := by
  have hcount : (splitlinesKeepends s).flatten.count '\n' = _ :=
    count_newline_flatten fun _ h => h
  rw [flatten_splitlinesKeepends] at hcount
  rw [hcount]
  refine List.countP_le_length.trans ?_
  simp [splitlinesKeepends]

theorem otherStops_cons {s t : List Char} {l : List Char × List Char} (h : lines t = l :: lines s)
    (hs : s ≠ []) :
    otherStops t = otherStops s + if l.2.getLast? = some '\n' then 0 else 1 := by
  obtain ⟨l', ls, hlines⟩ := List.exists_cons_of_ne_nil (lines_ne_nil hs)
  unfold otherStops
  rw [h, hlines, List.dropLast_cons_cons, List.countP_cons]
  by_cases hl : l.2.getLast? = some '\n' <;> simp [hl]

theorem lines_length {s : List Char} (h : s ≠ []) :
    (lines s).length = s.dropLast.count '\n' + otherStops s + 1 := by
  induction s using lines_induction with
  | nil => exact absurd rfl h
  | crlf s ih =>
    by_cases hs : s = []
    · subst hs
      rfl
    · have hlines : lines ('\r' :: '\n' :: s) = ([], ['\r', '\n']) :: lines s := rfl
      obtain ⟨d, r, rfl⟩ := List.exists_cons_of_ne_nil hs
      rw [otherStops_cons hlines hs, hlines, List.length_cons, ih hs, List.dropLast_cons_cons,
        List.dropLast_cons_cons, List.count_cons_of_ne (by decide), List.count_cons_self]
      simp only [List.getLast?_cons_cons, List.getLast?_singleton, if_true]
      omega
  | stop c s hcrlf hbreak ih =>
    have hlines := lines_cons_of_break hcrlf hbreak
    by_cases hs : s = []
    · subst hs
      rw [hlines]
      simp [otherStops, hlines, lines]
    · obtain ⟨d, r, rfl⟩ := List.exists_cons_of_ne_nil hs
      rw [otherStops_cons hlines hs, hlines, List.length_cons, ih hs, List.dropLast_cons_cons,
        List.count_cons]
      simp only [List.getLast?_singleton, Option.some_inj, beq_iff_eq]
      split <;> omega
  | char c s hbreak ih =>
    have hlines := lines_cons_of_char s hbreak
    by_cases hs : s = []
    · subst hs
      rw [hlines]
      simp [otherStops, hlines, lines]
    · have hprev := ih hs
      obtain ⟨l, ls, hl⟩ := List.exists_cons_of_ne_nil (lines_ne_nil hs)
      obtain ⟨d, r, rfl⟩ := List.exists_cons_of_ne_nil hs
      have hsame : otherStops (c :: d :: r) = otherStops (d :: r) := by
        unfold otherStops
        rw [hlines, hl]
        cases ls <;> simp [List.countP_cons]
      rw [hsame, hlines, List.dropLast_cons_cons,
        List.count_cons_of_ne (not_newline_of_not_break hbreak), ← hprev, hl]
      rfl

/-! ## Texts in which newlines end all lines -/

def NewlinesOnly (s : List Char) : Prop := ∀ c ∈ s, isLineBreak c = true → c = '\n'

instance (s : List Char) : Decidable (NewlinesOnly s) :=
  decidable_of_iff (s.all fun c => !isLineBreak c || c == '\n') (by
    simp [NewlinesOnly, ← Bool.not_eq_true, ← imp_iff_not_or])

theorem NewlinesOnly.mono {s t : List Char} (h : NewlinesOnly s) (hsub : t ⊆ s) : NewlinesOnly t :=
  fun c hc => h c (hsub hc)

theorem NewlinesOnly.stop {s : List Char} (h : NewlinesOnly s) :
    ∀ l ∈ lines s, l.2 = [] ∨ l.2 = ['\n'] := by
  intro l hl
  have hmem : ∀ c ∈ l.2, c ∈ s := by
    intro c hc
    rw [← flatten_splitlinesKeepends s, splitlinesKeepends, List.mem_flatten]
    exact ⟨l.1 ++ l.2, List.mem_map_of_mem hl, List.mem_append_right _ hc⟩
  rcases (newline_of_mem_lines l hl).2 with hstop | hstop | ⟨c, hstop⟩
  · exact Or.inl hstop
  · have hcr := h '\r' (hmem '\r' (by simp [hstop])) rfl
    exact absurd hcr (by decide)
  · have hbreak := (breaks_of_mem_lines l hl).2 c (by simp [hstop])
    obtain rfl := h c (hmem c (by simp [hstop])) hbreak
    exact Or.inr hstop

/-- The lines are the same, but for the empty one behind the last newline. -/
theorem NewlinesOnly.newlineLines {s : List Char} (h : NewlinesOnly s) :
    newlineLines s = lines s ∨ newlineLines s = lines s ++ [([], [])] := by
  induction s with
  | nil => exact Or.inr rfl
  | cons c s ih =>
    have hrest := ih (h.mono (List.subset_cons_self c s))
    by_cases hc : c = '\n'
    · subst hc
      rw [newlineLines_newline, lines_cons_of_break (fun hcr => absurd hcr (by decide)) rfl]
      rcases hrest with hrest | hrest
      · exact Or.inl (by rw [hrest])
      · exact Or.inr (by rw [hrest, List.cons_append])
    · have hbreak : ¬ isLineBreak c = true := fun hb => hc (h c List.mem_cons_self hb)
      obtain ⟨line, stop, more, hs, hcons⟩ := newlineLines_char hc s
      rw [hcons, lines_cons_of_char s hbreak]
      cases hl : lines s with
      | nil =>
        rw [hs, hl] at hrest
        rcases hrest with hrest | hrest
        · cases hrest
        · obtain ⟨hline, rfl⟩ := List.cons.inj hrest
          obtain ⟨rfl, rfl⟩ := Prod.mk.inj hline
          exact Or.inl rfl
      | cons l ls =>
        rw [hs, hl] at hrest
        rcases hrest with hrest | hrest
        · obtain ⟨rfl, rfl⟩ := List.cons.inj hrest
          exact Or.inl rfl
        · obtain ⟨rfl, rfl⟩ := List.cons.inj hrest
          exact Or.inr rfl

theorem NewlinesOnly.lineBegin {s : List Char} (h : NewlinesOnly s) (i : Nat) :
    lineBegin (PyText.newlineLines s) i = lineStart s i := by
  rw [← lineBegin_lines]
  rcases h.newlineLines with hlines | hlines
  · rw [hlines]
  · rw [hlines, PyText.lineBegin, List.take_append, List.map_append, List.flatten_append]
    have hempty : (((([([], [])] : List (List Char × List Char)).take (i - (lines s).length)).map
        fun l => l.1 ++ l.2).flatten) = [] := by
      cases i - (lines s).length <;> simp
    rw [hempty, List.append_nil]
    rfl

theorem NewlinesOnly.otherStops {s : List Char} (h : NewlinesOnly s) : otherStops s = 0 := by
  rw [PyText.otherStops, List.countP_eq_zero]
  intro l hl
  rcases h.stop l ((List.dropLast_sublist _).subset hl) with hstop | hstop
  · exact absurd hstop (stop_ne_nil l hl)
  · simp [hstop]

theorem NewlinesOnly.getElem?_stop {s : List Char} (h : NewlinesOnly s) {i : Nat}
    {l : List Char × List Char} (hl : (lines s)[i]? = some l) :
    s[lineStart s (i + 1) - 1]? = some '\n' ↔ l.2 = ['\n'] := by
  have hmem := List.mem_of_getElem? hl
  have hpos := List.length_pos_iff.mpr (line_ne_nil l hmem)
  rw [List.length_append] at hpos
  have hget := getElem?_line (flatten_splitlinesKeepends s) hl
    (j := l.1.length + l.2.length - 1) (by omega)
  rw [lineBegin_lines, show lineStart s i + (l.1.length + l.2.length - 1) =
    lineStart s (i + 1) - 1 by rw [lineStart_succ hl]; omega] at hget
  rw [hget]
  rcases h.stop l hmem with hstop | hstop
  · rw [hstop, List.append_nil]
    refine iff_of_false (fun hnewline => ?_) (by simp)
    have hbreak := (breaks_of_mem_lines l hmem).1 '\n' (List.mem_of_getElem? hnewline)
    revert hbreak
    decide
  · simp [hstop]

end PyText
