import GroundGraph.Ingestion.Parsers
import Mathlib.Data.List.Pairwise

/-! Which table heads `_extract_tables` finds. The scan goes on one line behind the line that
ended the rows, so this line is never looked at as a head.
-/

set_option autoImplicit false

namespace GroundGraph.Ingestion

open PyText

/-- `lines[i].strip().startswith("|")`. -/
def isRow (ls : List (List Char)) (i : Nat) : Bool :=
  decide ((strip (lineAt ls i)).head? = some '|')

/-- The range, with both ends counted from one, contains line `i`, counted from zero. -/
def covers (i : Nat) (r : Int × Int) : Bool := decide (r.1 ≤ i + 1) && decide ((i : Int) + 1 ≤ r.2)

theorem covers_iff {i : Nat} {r : Int × Int} :
    covers i r = true ↔ r.1 ≤ i + 1 ∧ (i : Int) + 1 ≤ r.2 := by
  simp [covers]

theorem lt_length_of_isRow {ls : List (List Char)} {i : Nat} (h : isRow ls i = true) :
    i < ls.length := by
  by_contra hout
  have hnil : lineAt ls i = [] := by
    rw [lineAt, List.getD_eq_getElem?_getD, List.getElem?_eq_none (not_lt.mp hout)]
    rfl
  rw [isRow, hnil] at h
  simp [strip, lstrip, rstrip] at h

theorem isRow_of_isSeparatorRow {ls : List (List Char)} {i : Nat}
    (h : isSeparatorRow (strip (lineAt ls i)) = true) : isRow ls i = true := by
  simp only [isSeparatorRow, Bool.and_eq_true, decide_eq_true_eq] at h
  simp [isRow, h.1.1.2]

theorem isRow_succ_of_isTableHead {ls : List (List Char)} {i : Nat} (h : isTableHead ls i = true) :
    isRow ls (i + 1) = true := by
  simp only [isTableHead, Bool.and_eq_true] at h
  exact isRow_of_isSeparatorRow h.2

theorem lt_length_of_isTableHead {ls : List (List Char)} {i : Nat} (h : isTableHead ls i = true) :
    i < ls.length := by
  have hrow := lt_length_of_isRow (isRow_succ_of_isTableHead h)
  omega

/-- The rows from line `i` on end in front of line `q`. -/
structure RowsTo (ls : List (List Char)) (i q : Nat) : Prop where
  le : i ≤ q
  rows : ∀ k, i ≤ k → k < q → isRow ls k = true
  stops : isRow ls q = false

section
variable {ls : List (List Char)} {i q : Nat}

theorem RowsTo.here (h : isRow ls i = false) : RowsTo ls i i where
  le := Nat.le_refl i
  rows := fun _ hik hki => absurd hki (Nat.not_lt.mpr hik)
  stops := h

theorem RowsTo.back (h : RowsTo ls (i + 1) q) (hrow : isRow ls i = true) : RowsTo ls i q where
  le := by
    have hle := h.le
    omega
  rows := by
    intro k hik hkq
    rcases Nat.eq_or_lt_of_le hik with rfl | hlt
    · exact hrow
    · exact h.rows k hlt hkq
  stops := h.stops

theorem RowsTo.lt_of_rows (h : RowsTo ls i q) {k : Nat}
    (hrows : ∀ j, i ≤ j → j ≤ k → isRow ls j = true) : k < q := by
  by_contra hqk
  have hrow := hrows q h.le (not_lt.mp hqk)
  rw [h.stops] at hrow
  cases hrow

theorem tableEnd_rowsTo (ls : List (List Char)) (fuel i : Nat) (hfuel : ls.length ≤ i + fuel) :
    ∃ q, tableEnd ls fuel (i + 1) = q + 1 ∧ RowsTo ls i q := by
  induction fuel generalizing i with
  | zero =>
    refine ⟨i, rfl, .here ?_⟩
    by_contra hrow
    have hlt := lt_length_of_isRow (Bool.not_eq_false _ |>.mp hrow)
    omega
  | succ fuel ih =>
    cases hrow : isRow ls i with
    | false =>
      refine ⟨i, ?_, .here hrow⟩
      rw [tableEnd, if_neg]
      rintro ⟨_, hbar⟩
      exact of_decide_eq_false hrow hbar
    | true =>
      obtain ⟨q, hq, hrows⟩ := ih (i + 1) (by omega)
      refine ⟨q, ?_, hrows.back hrow⟩
      rw [tableEnd, if_pos ⟨lt_length_of_isRow hrow, by simpa [isRow] using hrow⟩]
      exact hq

/-- A second separator makes no difference: it is a row like the others. -/
theorem tablesFrom_of_head (fuel : Nat) (hhead : isTableHead ls i = true) :
    ∃ q, RowsTo ls (i + 1) q ∧
      tablesFrom ls (fuel + 1) i = ((i : Int) + 1, (q : Int)) :: tablesFrom ls fuel (q + 1) := by
  have hstop : ∃ q, RowsTo ls (i + 1) q ∧
      tableEnd ls (ls.length + 1)
        (if (decide (i + 2 < ls.length) && isSeparatorRow (strip (lineAt ls (i + 2)))) = true then
          i + 3 else i + 2) = q + 1 := by
    split
    · obtain ⟨q, hq, hrows⟩ := tableEnd_rowsTo ls (ls.length + 1) (i + 2) (by omega)
      exact ⟨q, hrows.back (isRow_succ_of_isTableHead hhead), hq⟩
    · obtain ⟨q, hq, hrows⟩ := tableEnd_rowsTo ls (ls.length + 1) (i + 1) (by omega)
      exact ⟨q, hrows, hq⟩
  obtain ⟨q, hrows, hq⟩ := hstop
  refine ⟨q, hrows, ?_⟩
  rw [tablesFrom, if_pos (lt_length_of_isTableHead hhead), if_pos hhead]
  simp only [hq]
  rw [show ((q + 1 : Nat) : Int) - 1 = q by omega]

theorem tablesFrom_of_not_head (fuel : Nat) (hi : i < ls.length) (hhead : isTableHead ls i = false) :
    tablesFrom ls (fuel + 1) i = tablesFrom ls fuel (i + 1) := by
  rw [tablesFrom, if_pos hi, if_neg (by simp [hhead])]

theorem tablesFrom_of_end (fuel : Nat) (hi : ls.length ≤ i) : tablesFrom ls fuel i = [] := by
  cases fuel with
  | zero => rfl
  | succ fuel => rw [tablesFrom, if_neg (by omega)]

end

section
variable (ls : List (List Char))

theorem mem_tablesFrom {fuel i : Nat} {r : Int × Int} (hr : r ∈ tablesFrom ls fuel i) :
    ∃ j q, i ≤ j ∧ isTableHead ls j = true ∧ RowsTo ls (j + 1) q ∧
      r = ((j : Int) + 1, (q : Int)) := by
  induction fuel generalizing i with
  | zero => cases hr
  | succ fuel ih =>
    rcases Nat.lt_or_ge i ls.length with hi | hi
    · cases hhead : isTableHead ls i with
      | false =>
        rw [tablesFrom_of_not_head fuel hi hhead] at hr
        obtain ⟨j, q, hj, hrest⟩ := ih hr
        exact ⟨j, q, by omega, hrest⟩
      | true =>
        obtain ⟨q, hrows, heq⟩ := tablesFrom_of_head fuel hhead
        rw [heq] at hr
        rcases List.mem_cons.mp hr with rfl | hr
        · exact ⟨i, q, Nat.le_refl i, hhead, hrows, rfl⟩
        · obtain ⟨j, q', hj, hrest⟩ := ih hr
          have hle := hrows.le
          exact ⟨j, q', by omega, hrest⟩
    · rw [tablesFrom_of_end _ hi] at hr
      cases hr

/-- Between two ranges at least one line is left out. -/
theorem tablesFrom_pairwise (fuel i : Nat) :
    (tablesFrom ls fuel i).Pairwise fun a b => a.2 + 1 < b.1 := by
  induction fuel generalizing i with
  | zero => exact .nil
  | succ fuel ih =>
    rcases Nat.lt_or_ge i ls.length with hi | hi
    · cases hhead : isTableHead ls i with
      | false =>
        rw [tablesFrom_of_not_head fuel hi hhead]
        exact ih (i + 1)
      | true =>
        obtain ⟨q, _, heq⟩ := tablesFrom_of_head fuel hhead
        rw [heq]
        refine .cons ?_ (ih (q + 1))
        intro b hb
        obtain ⟨j, _, hj, _, _, rfl⟩ := mem_tablesFrom ls hb
        show (q : Int) + 1 < j + 1
        omega
    · rw [tablesFrom_of_end _ hi]
      exact .nil

/-- A head is in a range, or it is the line that the scan leaves out behind one. -/
theorem covers_or_behind (fuel i : Nat) {j : Nat} (hfuel : ls.length ≤ i + fuel) (hij : i ≤ j)
    (hj : isTableHead ls j = true) :
    (∃ r ∈ tablesFrom ls fuel i, covers j r = true) ∨ ∃ r ∈ tablesFrom ls fuel i, r.2 = j := by
  induction fuel generalizing i with
  | zero =>
    have hlt := lt_length_of_isTableHead hj
    omega
  | succ fuel ih =>
    have hlt := lt_length_of_isTableHead hj
    cases hhead : isTableHead ls i with
    | false =>
      have hne : i ≠ j := by
        rintro rfl
        rw [hhead] at hj
        cases hj
      rw [tablesFrom_of_not_head fuel (by omega) hhead]
      exact ih (i + 1) (by omega) (by omega)
    | true =>
      obtain ⟨q, hrows, heq⟩ := tablesFrom_of_head fuel hhead
      have hle := hrows.le
      rw [heq]
      rcases Nat.lt_trichotomy j q with hjq | rfl | hqj
      · exact .inl ⟨_, List.mem_cons_self, covers_iff.mpr ⟨by simp only; omega, by simp only; omega⟩⟩
      · exact .inr ⟨_, List.mem_cons_self, rfl⟩
      · rcases ih (q + 1) (by omega) (by omega) with ⟨r, hr, hcovers⟩ | ⟨r, hr, hbehind⟩
        · exact .inl ⟨r, List.mem_cons_of_mem _ hr, hcovers⟩
        · exact .inr ⟨r, List.mem_cons_of_mem _ hr, hbehind⟩

end

/-- Exactly one of the ranges contains line `i`, and it goes on to the separator and to all rows
that directly follow it. -/
def TableFound (ls : List (List Char)) (tables : List (Int × Int)) (i : Nat) : Prop :=
  ∃ r, tables.filter (covers i) = [r] ∧ covers (i + 1) r = true ∧
    ∀ k, i + 1 < k → (∀ j, i + 1 < j → j ≤ k → isRow ls j = true) → covers k r = true

/-- `q` is a head without a leading bar, and what stands in front of it are the rows of `i`. -/
structure HeadBehindTable (ls : List (List Char)) (i q : Nat) : Prop where
  lt : i < q
  head : isTableHead ls i = true
  rows : ∀ k, i < k → k < q → isRow ls k = true
  behind : isTableHead ls q = true
  noBar : isRow ls q = false

def Apart (a b : Int × Int) : Prop := a.2 + 1 < b.1 ∨ b.2 + 1 < a.1

instance : Std.Symm Apart := ⟨fun _ _ h => Or.symm h⟩

theorem apart_of_mem {tables : List (Int × Int)} {a b : Int × Int}
    (hsorted : tables.Pairwise fun a b => a.2 + 1 < b.1) (ha : a ∈ tables) (hb : b ∈ tables)
    (hne : a ≠ b) : Apart a b :=
  List.Pairwise.forall (R := Apart) (hsorted.imp Or.inl) ha hb hne

theorem filter_covers_eq {tables : List (Int × Int)} {i : Nat} {r : Int × Int}
    (hsorted : tables.Pairwise fun a b => a.2 + 1 < b.1) (hr : r ∈ tables)
    (hcovers : covers i r = true) : tables.filter (covers i) = [r] := by
  rw [covers_iff] at hcovers
  induction tables with
  | nil => cases hr
  | cons a rest ih =>
    obtain ⟨hfirst, hrest⟩ := List.pairwise_cons.mp hsorted
    rcases List.mem_cons.mp hr with rfl | hr
    · rw [List.filter_cons_of_pos (covers_iff.mpr hcovers), List.filter_eq_nil_iff.mpr]
      intro b hb hb'
      have hgap := hfirst b hb
      rw [covers_iff] at hb'
      omega
    · have hgap := hfirst r hr
      rw [List.filter_cons_of_neg, ih hrest hr]
      rw [covers_iff]
      omega

section
variable {ls : List (List Char)} {tables : List (Int × Int)} {i j q : Nat}

theorem tableFound_of_covers (hsorted : tables.Pairwise fun a b => a.2 + 1 < b.1)
    (hmem : ((j : Int) + 1, (q : Int)) ∈ tables) (hrows : RowsTo ls (j + 1) q)
    (hhead : isTableHead ls i = true) (hcovers : covers i ((j : Int) + 1, (q : Int)) = true) :
    TableFound ls tables i := by
  have hin := covers_iff.mp hcovers
  have hreach : ∀ k, i + 1 ≤ k → (∀ l, i + 1 < l → l ≤ k → isRow ls l = true) →
      covers k ((j : Int) + 1, (q : Int)) = true := by
    intro k hik hmore
    have hkq : k < q := hrows.lt_of_rows fun l hjl hlk => by
      rcases Nat.lt_trichotomy l (i + 1) with hl | rfl | hl
      · exact hrows.rows l hjl (by omega)
      · exact isRow_succ_of_isTableHead hhead
      · exact hmore l hl hlk
    rw [covers_iff]
    omega
  exact ⟨_, filter_covers_eq hsorted hmem hcovers,
    hreach (i + 1) (Nat.le_refl _) fun l hl hle => absurd hle (Nat.not_le.mpr hl),
    fun k hk hmore => hreach k (Nat.le_of_lt hk) hmore⟩

theorem HeadBehindTable.end_eq {e : Nat} (h : HeadBehindTable ls i q) (hrows : RowsTo ls (j + 1) e)
    (hcovers : covers i ((j : Int) + 1, (e : Int)) = true)
    (hsep : covers (i + 1) ((j : Int) + 1, (e : Int)) = true)
    (hmore : ∀ k, i + 1 < k → (∀ l, i + 1 < l → l ≤ k → isRow ls l = true) →
      covers k ((j : Int) + 1, (e : Int)) = true) : e = q := by
  have hlt := h.lt
  have hnoBar := h.noBar
  simp only [covers_iff] at hcovers hsep hmore
  have hle : q ≤ e := by
    rcases Nat.lt_trichotomy q (i + 2) with hnext | rfl | hfar
    · obtain rfl : q = i + 1 := by omega
      rw [isRow_succ_of_isTableHead h.head] at hnoBar
      cases hnoBar
    · have hend := hsep.2
      omega
    · have hend := (hmore (q - 1) (by omega) fun k hk hkq => h.rows k (by omega) (by omega)).2
      omega
  by_contra hne
  have hrow := hrows.rows q (by omega) (by omega)
  rw [hnoBar] at hrow
  cases hrow

end

/-- For every body: all tables are found unless a head without a leading bar directly follows the
rows of another one. -/
theorem extractTables_finds_iff (body : List Char) :
    (∀ i, isTableHead (splitlines body) i = true →
        TableFound (splitlines body) (extractTables body) i) ↔
      ¬ ∃ i q, HeadBehindTable (splitlines body) i q := by
  have hsorted := tablesFrom_pairwise (splitlines body) (splitlines body).length 0
  have hmem : ∀ r ∈ extractTables body, ∃ j q, isTableHead (splitlines body) j = true ∧
      RowsTo (splitlines body) (j + 1) q ∧ r = ((j : Int) + 1, (q : Int)) := by
    intro r hr
    obtain ⟨j, q, _, hrest⟩ := mem_tablesFrom _ hr
    exact ⟨j, q, hrest⟩
  constructor
  · rintro hfound ⟨i, q, h⟩
    obtain ⟨r, hfilter, hsep, hmore⟩ := hfound i h.head
    obtain ⟨s, hfilter', _⟩ := hfound q h.behind
    have hr : r ∈ extractTables body ∧ covers i r = true :=
      List.mem_filter.mp (by rw [hfilter]; exact List.mem_singleton_self r)
    have hs : s ∈ extractTables body ∧ covers q s = true :=
      List.mem_filter.mp (by rw [hfilter']; exact List.mem_singleton_self s)
    obtain ⟨j, e, _, hrows, rfl⟩ := hmem r hr.1
    obtain ⟨j', e', _, _, rfl⟩ := hmem s hs.1
    obtain rfl := h.end_eq hrows hr.2 hsep hmore
    -- the range of the second head would have to begin in the line that is left out
    have hin := covers_iff.mp hr.2
    have hin' := covers_iff.mp hs.2
    simp only at hin hin'
    have hne : ((j : Int) + 1, (e : Int)) ≠ ((j' : Int) + 1, (e' : Int)) := by
      intro hsame
      have hends := (Prod.mk.inj hsame).2
      omega
    have hapart := apart_of_mem hsorted hr.1 hs.1 hne
    simp only [Apart] at hapart
    omega
  · intro hnone i hhead
    rcases covers_or_behind (splitlines body) (splitlines body).length 0 (by omega) (Nat.zero_le i)
        hhead with ⟨r, hr, hcovers⟩ | ⟨r, hr, hbehind⟩
    · obtain ⟨j, q, _, hrows, rfl⟩ := hmem r hr
      exact tableFound_of_covers hsorted hr hrows hhead hcovers
    · obtain ⟨j, q, hj, hrows, rfl⟩ := hmem r hr
      obtain rfl : q = i := Int.ofNat.inj hbehind
      exact absurd ⟨j, q, hrows.le, hj, hrows.rows, hhead, hrows.stops⟩ hnone

/-- Two tables, the second without a leading bar in its head. -/
def adjacentTables : List Char := "| a |\n|---|\nb | c\n|---|".toList

theorem not_extractTables_finds :
    ¬ ∀ (body : List Char) (i : Nat), isTableHead (splitlines body) i = true →
      TableFound (splitlines body) (extractTables body) i := by
  intro h
  have hhead : isTableHead (splitlines adjacentTables) 2 = true := by decide
  obtain ⟨r, hfilter, _⟩ := h adjacentTables 2 hhead
  have hempty : (extractTables adjacentTables).filter (covers 2) = [] := by decide
  rw [hempty] at hfilter
  cases hfilter

end GroundGraph.Ingestion
