import GroundGraph.Ingestion.ChunkBoundaries
import GroundGraph.Library.Outline

/-! The sections of a document against the headings that a parser found in it. The chunker looks
for the headings a second time, by their text; whether it finds the same ones depends on how the
lines of the document begin.
-/

set_option autoImplicit false

namespace GroundGraph.Ingestion

open PyText

/-- Where a section begins, and its own heading: the last of the path. -/
def Section.head (sec : Section) : Int × Option (List Char) :=
  (sec.startLine, sec.headingPath.getLast?)

def Section.place (sec : Section) : Int × List (List Char) := (sec.startLine, sec.headingPath)

def levelOf (h : Int × Int × List Char) : Nat := h.2.1.toNat

/-- Where the section of a heading begins, and its path: the texts of the headings above and its
own. -/
def placeOf (h : (Int × Int × List Char) × List (Int × Int × List Char)) :
    Int × List (List Char) :=
  (h.1.1, (h.2.map fun g => g.2.2) ++ [h.1.2.2])

def numbered {α : Type} (found : List Char → Option α) (n : Nat) (ls : List (List Char)) :
    List (Int × α) :=
  (ls.zipIdx n).filterMap fun l => (found l.1).map fun a => ((l.2 : Int), a)

def sectionHeadings (content : ParsedContent) : List (Int × Int × List Char) :=
  numbered (matchedHeading content.headings) 1 (splitlinesKeepends content.body)

/-- Text before the first heading makes a section at line 1. -/
def preamble (found : List (Int × Int × List Char)) : List (Int × Option (List Char)) :=
  if found.head?.map Prod.fst = some 1 then [] else [(1, none)]

def preamblePlace (found : List (Int × Int × List Char)) : List (Int × List (List Char)) :=
  if found.head?.map Prod.fst = some 1 then [] else [(1, [])]

/-- A section begins at the line of each heading and at no other, the preamble apart, and has
that heading for its own, at its level. -/
structure HeadingsAgree (content : ParsedContent) (found : List (Int × Int × List Char)) :
    Prop where
  sections : (splitByHeading content).map Section.head =
    preamble found ++ found.map fun h => (h.1, some h.2.2)
  levels : sectionHeadings content = found

def headingPrefix (h : Int × List Char) : List Char := List.replicate h.1.toNat '#' ++ ' ' :: h.2

/-- `found` are the headings of the parser, each with the line it was found in. -/
structure Located (content : ParsedContent) (found : List (Int × Int × List Char)) : Prop where
  headings : found.map Prod.snd = content.headings
  sorted : found.Pairwise fun a b => a.1 < b.1
  lines : ∀ h ∈ found, ∃ m line, (splitlinesKeepends content.body)[m]? = some line ∧
    h.1 = ((1 + m : Nat) : Int)
  level : ∀ h ∈ found, 1 ≤ h.2.1

/-- The line of a heading begins with it, as the chunker writes it, and with none that was found
before it; any other line begins with none of the headings. White space in front of a line does
not count. -/
structure WellHeaded (content : ParsedContent) (found : List (Int × Int × List Char)) :
    Prop where
  own : ∀ h ∈ found, ∀ m line, (splitlinesKeepends content.body)[m]? = some line →
    h.1 = ((1 + m : Nat) : Int) → headingPrefix h.2 <+: strip line
  first : ∀ h ∈ found, ∀ m line, (splitlinesKeepends content.body)[m]? = some line →
    h.1 = ((1 + m : Nat) : Int) → ∃ before after, content.headings = before ++ h.2 :: after ∧
      ∀ h' ∈ before, ¬ headingPrefix h' <+: strip line
  others : ∀ m line, (splitlinesKeepends content.body)[m]? = some line →
    ((1 + m : Nat) : Int) ∉ found.map Prod.fst →
      ∀ h' ∈ content.headings, ¬ headingPrefix h' <+: strip line

section Numbered

variable {α : Type} {found : List Char → Option α}

theorem numbered_cons_none {line : List Char} (h : found line = none) (n : Nat)
    (ls : List (List Char)) : numbered found n (line :: ls) = numbered found (n + 1) ls := by
  simp [numbered, h]

theorem numbered_cons_some {line : List Char} {a : α} (h : found line = some a) (n : Nat)
    (ls : List (List Char)) :
    numbered found n (line :: ls) = ((n : Int), a) :: numbered found (n + 1) ls := by
  simp [numbered, h]

theorem mem_numbered_iff {n : Nat} {ls : List (List Char)} {i : Int} {a : α} :
    (i, a) ∈ numbered found n ls ↔
      ∃ m line, ls[m]? = some line ∧ found line = some a ∧ i = ((n + m : Nat) : Int) := by
  induction ls generalizing n with
  | nil => simp [numbered]
  | cons line rest ih =>
    rw [← Nat.or_exists_add_one]
    have hrest : (∃ m l, (line :: rest)[m + 1]? = some l ∧ found l = some a ∧
        i = ((n + (m + 1) : Nat) : Int)) ↔ (i, a) ∈ numbered found (n + 1) rest := by
      simp only [ih, List.getElem?_cons_succ, Nat.add_assoc, Nat.add_comm 1]
    rw [hrest]
    cases hline : found line with
    | none => simp [numbered_cons_none hline, hline]
    | some b => simp [numbered_cons_some hline, hline, and_comm, eq_comm]

theorem numbered_sorted (found : List Char → Option α) (n : Nat) (ls : List (List Char)) :
    (numbered found n ls).Pairwise fun a b => a.1 < b.1 := by
  induction ls generalizing n with
  | nil => exact .nil
  | cons line rest ih =>
    cases hline : found line with
    | none =>
      rw [numbered_cons_none hline]
      exact ih (n + 1)
    | some a =>
      rw [numbered_cons_some hline, List.pairwise_cons]
      refine ⟨?_, ih (n + 1)⟩
      rintro ⟨i, b⟩ hb
      obtain ⟨m, l, _, _, rfl⟩ := mem_numbered_iff.mp hb
      simp only
      omega

end Numbered

/-- The path is a stack that each heading cuts to one less than its level. -/
theorem foldl_addLine_places {headings : List (Int × List Char)} (ls : List (List Char)) (n : Nat)
    (s : Splitting) (hs : s.currentLines ≠ []) (stack : List (Int × Int × List Char))
    (hstack : s.headingPath = stack.map fun g => g.2.2) :
    (((ls.zipIdx n).foldl (Splitting.addLine headings) s).finish).map Section.place =
      s.finish.map Section.place ++
        (Outline.stackedFrom levelOf stack (numbered (matchedHeading headings) n ls)).map
          placeOf := by
  induction ls generalizing n s stack with
  | nil => simp [numbered, Outline.stackedFrom]
  | cons line rest ih =>
    have hnext : (s.addLine headings (line, n)).currentLines ≠ [] := s.currentLines_addLine n
    rw [List.zipIdx_cons, List.foldl_cons]
    cases hmatch : matchedHeading headings line with
    | none =>
      have hfinish : (s.addLine headings (line, n)).finish.map Section.place =
          s.finish.map Section.place := by
        rw [s.finish_addLine_none hmatch]
        simp [Splitting.finish, Splitting.closeSection, hs, Section.place]
      have hpath : (s.addLine headings (line, n)).headingPath = stack.map fun g => g.2.2 := by
        simp [Splitting.addLine, hmatch, hstack]
      rw [ih _ _ hnext stack hpath, hfinish, numbered_cons_none hmatch]
    | some h =>
      obtain ⟨level, text⟩ := h
      have hfinish : (s.addLine headings (line, n)).finish.map Section.place =
          s.finish.map Section.place ++
            [((n : Int), (stack.take (level.toNat - 1)).map (fun g => g.2.2) ++ [text])] := by
        rw [s.finish_addLine_some hmatch]
        simp [Splitting.finish, Splitting.closeSection, hs, Section.place, hstack, List.map_take]
      have hpath : (s.addLine headings (line, n)).headingPath =
          (stack.take (level.toNat - 1) ++ [((n : Int), level, text)]).map fun g => g.2.2 := by
        simp [Splitting.addLine, hmatch, hstack, List.map_take]
      rw [ih _ _ hnext _ hpath, hfinish, numbered_cons_some hmatch, Outline.stackedFrom,
        List.map_cons, List.append_assoc]
      rfl

/-- After the preamble, if there is one, each line that matches a heading begins a section. -/
theorem splitByHeading_places {content : ParsedContent} (hheadings : content.headings ≠ [])
    (hbody : splitlinesKeepends content.body ≠ []) :
    (splitByHeading content).map Section.place =
      preamblePlace (sectionHeadings content) ++
        (Outline.stacked levelOf (sectionHeadings content)).map placeOf := by
  rw [splitByHeading_eq content hheadings]
  unfold sectionHeadings Outline.stacked
  cases hls : splitlinesKeepends content.body with
  | nil => exact absurd hls hbody
  | cons line rest =>
    have hnext : (Splitting.addLine content.headings {} (line, 1)).currentLines ≠ [] :=
      Splitting.currentLines_addLine {} 1
    rw [List.zipIdx_cons, List.foldl_cons]
    cases hmatch : matchedHeading content.headings line with
    | none =>
      have hlater : (numbered (matchedHeading content.headings) 2 rest).head?.map Prod.fst ≠
          some 1 := by
        intro hone
        obtain ⟨⟨i, h⟩, hhead, rfl⟩ := Option.map_eq_some_iff.mp hone
        obtain ⟨m, l, _, _, hi⟩ := mem_numbered_iff.mp (List.mem_of_head? hhead)
        omega
      have hpath : (Splitting.addLine content.headings {} (line, 1)).headingPath =
          ([] : List (Int × Int × List Char)).map fun g => g.2.2 := by
        simp [Splitting.addLine, hmatch]
      rw [foldl_addLine_places _ _ _ hnext [] hpath, Splitting.finish_addLine_none hmatch,
        numbered_cons_none hmatch, preamblePlace, if_neg hlater]
      rfl
    | some h =>
      obtain ⟨level, text⟩ := h
      have hfirst : ∀ later, preamblePlace (((1 : Nat), level, text) :: later) = [] := fun _ =>
        if_pos rfl
      have hpath : (Splitting.addLine content.headings {} (line, 1)).headingPath =
          [((1 : Int), level, text)].map fun g => g.2.2 := by
        simp [Splitting.addLine, hmatch]
      rw [foldl_addLine_places _ _ _ hnext _ hpath, Splitting.finish_addLine_some hmatch,
        if_pos ⟨rfl, rfl⟩, numbered_cons_some hmatch, hfirst, Outline.stackedFrom, List.take_nil]
      simp [Section.place, placeOf]

theorem map_head_eq (sections : List Section) :
    sections.map Section.head = (sections.map Section.place).map fun p => (p.1, p.2.getLast?) := by
  rw [List.map_map]
  rfl

theorem map_preamblePlace (found : List (Int × Int × List Char)) :
    (preamblePlace found).map (fun p => (p.1, p.2.getLast?)) = preamble found := by
  unfold preamblePlace preamble
  split <;> rfl

theorem map_placeOf (hs : List ((Int × Int × List Char) × List (Int × Int × List Char))) :
    (hs.map placeOf).map (fun p => (p.1, p.2.getLast?)) =
      (hs.map Prod.fst).map fun h => (h.1, some h.2.2) := by
  simp [placeOf, Function.comp_def]

theorem splitByHeading_heads {content : ParsedContent} (hheadings : content.headings ≠ [])
    (hbody : splitlinesKeepends content.body ≠ []) :
    (splitByHeading content).map Section.head =
      preamble (sectionHeadings content) ++
        (sectionHeadings content).map fun h => (h.1, some h.2.2) := by
  rw [map_head_eq, splitByHeading_places hheadings hbody, List.map_append, map_preamblePlace,
    map_placeOf, Outline.stacked, Outline.map_fst_stackedFrom]

theorem findHeading_test {line : List Char} (h : Int × List Char) :
    ((List.replicate h.1.toNat '#').isPrefixOf (strip line) &&
      (List.replicate h.1.toNat '#' ++ ' ' :: h.2).isPrefixOf (strip line)) = true ↔
        headingPrefix h <+: strip line := by
  rw [Bool.and_eq_true, List.isPrefixOf_iff_prefix, List.isPrefixOf_iff_prefix]
  exact ⟨fun hboth => hboth.2, fun hp => ⟨(List.prefix_append _ _).trans hp, hp⟩⟩

theorem findHeading_eq_some_iff {headings : List (Int × List Char)} {line : List Char}
    {h : Int × List Char} :
    findHeading headings line = some h ↔ headingPrefix h <+: strip line ∧
      ∃ before after, headings = before ++ h :: after ∧
        ∀ h' ∈ before, ¬ headingPrefix h' <+: strip line := by
  unfold findHeading
  rw [List.find?_eq_some_iff_append]
  simp only [findHeading_test, Bool.not_eq_eq_eq_not, Bool.not_true, Bool.eq_false_iff, ne_eq]

theorem findHeading_eq_none_iff {headings : List (Int × List Char)} {line : List Char} :
    findHeading headings line = none ↔ ∀ h ∈ headings, ¬ headingPrefix h <+: strip line := by
  unfold findHeading
  rw [List.find?_eq_none]
  simp only [findHeading_test]

/-- Where every level is at least one, the level has no say in the matching. -/
theorem matchedHeading_eq_findHeading {headings : List (Int × List Char)}
    (hlevel : ∀ h ∈ headings, 1 ≤ h.1) (line : List Char) :
    matchedHeading headings line = findHeading headings line := by
  unfold matchedHeading
  cases hfind : findHeading headings line with
  | none => rfl
  | some h =>
    have hone := hlevel h (List.mem_of_find?_eq_some hfind)
    exact if_neg (by omega)

variable {content : ParsedContent} {found : List (Int × Int × List Char)}

theorem Located.eq_nil (hl : Located content found) (h : content.headings = []) : found = [] := by
  have hmap := hl.headings
  rw [h, List.map_eq_nil_iff] at hmap
  exact hmap

theorem Located.lines_ne_nil (hl : Located content found) (h : content.headings ≠ []) :
    splitlinesKeepends content.body ≠ [] := by
  intro hnil
  obtain ⟨g, hg⟩ : ∃ g, g ∈ found := by
    refine List.exists_mem_of_ne_nil _ ?_
    rintro rfl
    exact h hl.headings.symm
  obtain ⟨m, line, hline, _⟩ := hl.lines g hg
  rw [hnil] at hline
  cases hline

theorem headingsAgree_iff_levels (hl : Located content found) :
    HeadingsAgree content found ↔ sectionHeadings content = found := by
  refine ⟨HeadingsAgree.levels, fun heq => ⟨?_, heq⟩⟩
  by_cases hheadings : content.headings = []
  · rw [splitByHeading, if_pos hheadings, hl.eq_nil hheadings]
    rfl
  · rw [splitByHeading_heads hheadings (hl.lines_ne_nil hheadings), heq]

theorem Located.level_headings (hl : Located content found) :
    ∀ h ∈ content.headings, 1 ≤ h.1 := by
  intro h hh
  rw [← hl.headings] at hh
  obtain ⟨g, hg, rfl⟩ := List.mem_map.mp hh
  exact hl.level g hg

/-- A line has at most one heading. -/
theorem Located.eq_of_line (hl : Located content found) {g h : Int × Int × List Char}
    (hg : g ∈ found) (hh : h ∈ found) (hline : g.1 = h.1) : g = h := by
  have hnodup : (found.map Prod.fst).Nodup :=
    List.pairwise_map.mpr (hl.sorted.imp fun hlt => ne_of_lt hlt)
  exact List.inj_on_of_nodup_map hnodup hg hh hline

theorem sectionHeadings_eq_iff (hl : Located content found) :
    sectionHeadings content = found ↔
      ∀ m line, (splitlinesKeepends content.body)[m]? = some line →
        ∀ h, findHeading content.headings line = some h ↔ (((1 + m : Nat) : Int), h) ∈ found := by
  have hmem : ∀ i h, (i, h) ∈ sectionHeadings content ↔
      ∃ m line, (splitlinesKeepends content.body)[m]? = some line ∧
        findHeading content.headings line = some h ∧ i = ((1 + m : Nat) : Int) := by
    intro i h
    unfold sectionHeadings
    rw [mem_numbered_iff]
    simp only [matchedHeading_eq_findHeading hl.level_headings]
  constructor
  · intro heq m line hline h
    rw [← heq, hmem]
    constructor
    · exact fun hfind => ⟨m, line, hline, hfind, rfl⟩
    · rintro ⟨m', line', hline', hfind, hm⟩
      obtain rfl : m = m' := by omega
      rw [hline] at hline'
      obtain rfl := Option.some.inj hline'
      exact hfind
  · intro hall
    have hirrefl : Std.Irrefl fun a b : Int × Int × List Char => a.1 < b.1 :=
      ⟨fun a => lt_irrefl a.1⟩
    have hantisymm : Std.Antisymm fun a b : Int × Int × List Char => a.1 < b.1 :=
      ⟨fun a b hab hba => absurd hba (not_lt.mpr (le_of_lt hab))⟩
    refine List.Pairwise.eq_of_mem_iff (numbered_sorted _ _ _) hl.sorted ?_
    rintro ⟨i, h⟩
    rw [hmem]
    constructor
    · rintro ⟨m, line, hline, hfind, rfl⟩
      exact (hall m line hline h).mp hfind
    · intro hin
      obtain ⟨m, line, hline, hi⟩ := hl.lines _ hin
      simp only at hi
      subst hi
      exact ⟨m, line, hline, (hall m line hline h).mpr hin, rfl⟩

theorem headingsAgree_iff (hl : Located content found) :
    HeadingsAgree content found ↔ WellHeaded content found := by
  rw [headingsAgree_iff_levels hl, sectionHeadings_eq_iff hl]
  constructor
  · intro hall
    have hfind : ∀ h ∈ found, ∀ m line, (splitlinesKeepends content.body)[m]? = some line →
        h.1 = ((1 + m : Nat) : Int) → findHeading content.headings line = some h.2 := by
      rintro ⟨i, h⟩ hh m line hline hi
      obtain rfl : i = _ := hi
      exact (hall m line hline h).mpr hh
    refine ⟨?_, ?_, ?_⟩
    · intro h hh m line hline hi
      exact (findHeading_eq_some_iff.mp (hfind h hh m line hline hi)).1
    · intro h hh m line hline hi
      exact (findHeading_eq_some_iff.mp (hfind h hh m line hline hi)).2
    · intro m line hline hnot
      rw [← findHeading_eq_none_iff]
      cases hsome : findHeading content.headings line with
      | none => rfl
      | some h =>
        have hin := (hall m line hline h).mp hsome
        exact absurd (List.mem_map.mpr ⟨_, hin, rfl⟩) hnot
  · rintro ⟨hown, hfirst, hothers⟩ m line hline h
    by_cases hin : ((1 + m : Nat) : Int) ∈ found.map Prod.fst
    · obtain ⟨⟨i, g⟩, hg, rfl⟩ := List.mem_map.mp hin
      have hfind : findHeading content.headings line = some g :=
        findHeading_eq_some_iff.mpr ⟨hown _ hg m line hline rfl, hfirst _ hg m line hline rfl⟩
      rw [hfind]
      constructor
      · intro heq
        obtain rfl := Option.some.inj heq
        exact hg
      · intro hh
        exact congrArg some (Prod.mk.inj (hl.eq_of_line hg hh rfl)).2
    · have hnone := findHeading_eq_none_iff.mpr (hothers m line hline hin)
      rw [hnone]
      refine iff_of_false (by simp) fun hh => hin (List.mem_map.mpr ⟨_, hh, rfl⟩)

end GroundGraph.Ingestion
