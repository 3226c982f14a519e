import GroundGraph.Ingestion.ChunkBoundaries

/-! The sections of a document and the lines they are made of. A group is put away only when the
next heading follows or the document ends, and by then it has the line that opened it.
-/

set_option autoImplicit false

namespace GroundGraph.Ingestion

open PyText

/-- The sections come from groups of lines that follow each other from line `n` on. -/
inductive LaidOut : Nat → List (List (List Char)) → List Section → Prop
  | nil (n : Nat) : LaidOut n [] []
  | cons {n : Nat} {g : List (List Char)} {groups : List (List (List Char))} {sec : Section}
      {sections : List Section} (nonempty : g ≠ []) (body : sec.body = rstrip g.flatten)
      (start : sec.startLine = n) (rest : LaidOut (n + g.length) groups sections) :
      LaidOut n (g :: groups) (sec :: sections)

section
variable {n : Nat} {groups : List (List (List Char))} {sections : List Section}

theorem LaidOut.groups_eq_nil (h : LaidOut n groups []) : groups = [] := by
  cases h
  rfl

theorem LaidOut.append_singleton (h : LaidOut n groups sections) {g : List (List Char)}
    {sec : Section} (hg : g ≠ []) (hbody : sec.body = rstrip g.flatten)
    (hstart : sec.startLine = (n + groups.flatten.length : Nat)) :
    LaidOut n (groups ++ [g]) (sections ++ [sec]) := by
  induction h with
  | nil n => exact .cons hg hbody (by simpa using hstart) (.nil _)
  | @cons n g' groups _ _ hne hbody' hstart' _ ih =>
    refine .cons hne hbody' hstart' (ih ?_)
    rw [hstart, List.flatten_cons, List.length_append, Nat.add_assoc]

end

/-- Groups begin exactly with the lines that are taken for headings, and the first with the first
line. -/
structure Opened (headings : List (Int × List Char)) (groups : List (List (List Char))) :
    Prop where
  heads : ∀ g ∈ groups.tail, ∃ line ∈ g.head?, (matchedHeading headings line).isSome = true
  rest : ∀ g ∈ groups, ∀ line ∈ g.tail, matchedHeading headings line = none

section
variable {headings : List (Int × List Char)} {groups : List (List (List Char))}
  {g : List (List Char)} {line : List Char}

theorem Opened.of_nil (hline : ∀ l ∈ g.tail, matchedHeading headings l = none) :
    Opened headings ([] ++ [g]) := by
  refine ⟨by simp, ?_⟩
  rw [List.nil_append, List.forall_mem_singleton]
  exact hline

theorem Opened.goOn (h : Opened headings (groups ++ [g])) (hg : g ≠ [])
    (hline : matchedHeading headings line = none) :
    Opened headings (groups ++ [g ++ [line]]) := by
  obtain ⟨first, more, rfl⟩ := List.exists_cons_of_ne_nil hg
  obtain ⟨hheads, hrest⟩ := h
  rw [List.forall_mem_append, List.forall_mem_singleton] at hrest
  refine ⟨?_, ?_⟩
  · cases groups with
    | nil => simp
    | cons g' groups =>
      rw [List.cons_append, List.tail_cons, List.forall_mem_append, List.forall_mem_singleton]
        at hheads ⊢
      exact hheads
  · rw [List.forall_mem_append, List.forall_mem_singleton, List.cons_append, List.tail_cons,
      List.forall_mem_append, List.forall_mem_singleton]
    exact ⟨hrest.1, hrest.2, hline⟩

theorem Opened.next (h : Opened headings (groups ++ [g]))
    (hline : (matchedHeading headings line).isSome = true) :
    Opened headings (groups ++ [g] ++ [[line]]) := by
  refine ⟨?_, ?_⟩
  · rw [List.tail_append_of_ne_nil (by simp), List.forall_mem_append, List.forall_mem_singleton]
    exact ⟨h.heads, line, rfl, hline⟩
  · rw [List.forall_mem_append, List.forall_mem_singleton]
    exact ⟨h.rest, by simp⟩

end

/-- The lines that are done, in the groups behind the sections and in the one that is open. -/
structure Splitting.Grouped (headings : List (Int × List Char)) (s : Splitting)
    (done : List (List Char)) (groups : List (List (List Char))) : Prop where
  lines : groups.flatten ++ s.currentLines = done
  laidOut : LaidOut 1 groups s.sections
  start : s.currentStart = (1 + groups.flatten.length : Nat)
  opened : s.currentLines = [] → s.sections = []
  headed : Opened headings (groups ++ [s.currentLines])

section
variable {headings : List (Int × List Char)} {s : Splitting} {done : List (List Char)} {groups : List (List (List Char))}

theorem Splitting.Grouped.close (h : s.Grouped headings done groups) (hne : s.currentLines ≠ []) :
    LaidOut 1 (groups ++ [s.currentLines]) s.closeSection :=
  h.laidOut.append_singleton hne rfl h.start

theorem Splitting.Grouped.done_eq_nil (h : s.Grouped headings done groups) (hnil : s.currentLines = []) :
    groups = [] ∧ done = [] := by
  have hlaid := h.laidOut
  rw [h.opened hnil] at hlaid
  have hgroups := hlaid.groups_eq_nil
  have hlines := h.lines
  rw [hnil, hgroups] at hlines
  exact ⟨hgroups, hlines.symm⟩

theorem Splitting.Grouped.addLine (h : s.Grouped headings done groups) (line : List Char) :
    ∃ groups', (s.addLine headings (line, done.length + 1)).Grouped headings (done ++ [line])
      groups' := by
  unfold Splitting.addLine
  cases hmatch : matchedHeading headings line with
  | none =>
    refine ⟨groups, ?_, h.laidOut, h.start, by simp, ?_⟩
    · rw [← h.lines, List.append_assoc]
    · by_cases hnil : s.currentLines = []
      · obtain ⟨rfl, _⟩ := h.done_eq_nil hnil
        rw [hnil]
        exact .of_nil (by simp)
      · exact h.headed.goOn hnil hmatch
  | some m =>
    by_cases hnil : s.currentLines = []
    · obtain ⟨rfl, rfl⟩ := h.done_eq_nil hnil
      simp only [hnil, h.opened hnil, and_self, if_true]
      exact ⟨[], rfl, .nil 1, rfl, by simp, .of_nil (by simp)⟩
    · have hopen : ¬ (s.currentLines = [] ∧ s.sections = []) := fun hboth => hnil hboth.1
      simp only [if_neg hopen]
      refine ⟨groups ++ [s.currentLines], ?_, h.close hnil, ?_, by simp, ?_⟩
      · simp [← h.lines]
      · simp only [← h.lines, List.flatten_append, List.flatten_singleton, Nat.add_comm]
      · exact h.headed.next (by rw [hmatch]; rfl)

theorem Splitting.Grouped.foldl_addLine (h : s.Grouped headings done groups)
    (rest : List (List Char)) :
    ∃ groups', ((rest.zipIdx (done.length + 1)).foldl (Splitting.addLine headings) s).Grouped
      headings (done ++ rest) groups' := by
  induction rest generalizing s done groups with
  | nil => exact ⟨groups, by simpa using h⟩
  | cons line rest ih =>
    obtain ⟨_, hnext⟩ := h.addLine line
    have hloop := ih hnext
    rwa [List.length_append, List.length_singleton, List.append_assoc] at hloop

theorem Splitting.Grouped.finish (h : s.Grouped headings done groups) :
    ∃ groups', groups'.flatten = done ∧ LaidOut 1 groups' s.finish ∧
      Opened headings groups' := by
  unfold Splitting.finish
  split
  · rename_i hnil
    obtain ⟨rfl, rfl⟩ := h.done_eq_nil hnil
    exact ⟨[], rfl, h.laidOut, ⟨by simp, by simp⟩⟩
  · rename_i hne
    refine ⟨groups ++ [s.currentLines], ?_, h.close hne, h.headed⟩
    rw [← h.lines, List.flatten_append, List.flatten_singleton]

end

/-- All lines of the body, in order, are in the groups behind the sections, which begin at the
headings. -/
theorem splitByHeading_partition (content : ParsedContent) (h : content.headings ≠ []) :
    ∃ groups : List (List (List Char)), groups.flatten = splitlinesKeepends content.body ∧
      LaidOut 1 groups (splitByHeading content) ∧ Opened content.headings groups := by
  have hstart : ({} : Splitting).Grouped content.headings [] [] :=
    ⟨rfl, .nil 1, rfl, fun _ => rfl, .of_nil (by simp)⟩
  obtain ⟨groups, hgrouped⟩ := hstart.foldl_addLine (splitlinesKeepends content.body)
  rw [splitByHeading_eq content h]
  exact hgrouped.finish

def headingTwice : ParsedContent where
  title := "t".toList
  body := "x\n# a\n# a \ny".toList
  mediaType := "text/markdown"
  headings := [(2, "b".toList), (1, "a".toList)]

theorem splitByHeading_partition_twice :
    ∃ groups : List (List (List Char)),
      groups.flatten = ["x\n".toList, "# a\n".toList, "# a \n".toList, "y".toList] ∧
        LaidOut 1 groups (splitByHeading headingTwice) ∧ Opened headingTwice.headings groups :=
  splitByHeading_partition headingTwice (by decide)

end GroundGraph.Ingestion
