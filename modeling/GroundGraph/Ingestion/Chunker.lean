import GroundGraph.Ingestion.Documents
import GroundGraph.Ingestion.Parsers
import GroundGraph.Library.Iteration
import Mathlib.Data.List.Sort

/-! The chunker: `application/ingestion/chunker.py`. `int(n / TOKENS_PER_CHAR)` is
`4 * n` and `int(len(text) * TOKENS_PER_CHAR)` is `len(text) / 4` for every length
that a float holds exactly. A section and a chunk also carry the offsets where they
begin and end, which the source computes and drops.
-/

set_option autoImplicit false

namespace GroundGraph.Ingestion

open PyText

structure ChunkerConfig where
  maxTokens : Nat := 512
  overlapTokens : Nat := 64
  maxTokens_min : 64 ≤ maxTokens := by decide
  overlap_le : overlapTokens ≤ maxTokens := by decide

def ChunkerConfig.estimatedChars (config : ChunkerConfig) : Nat := 4 * config.maxTokens

def ChunkerConfig.overlapChars (config : ChunkerConfig) : Nat := 4 * config.overlapTokens

def estimateTokens (text : List Char) : Nat := text.length / 4

structure Section where
  headingPath : List (List Char)
  body : List Char
  startLine : Int
  /-- Where the section begins in the document. -/
  offset : Nat

/-- The first heading that the line may be. -/
def findHeading (headings : List (Int × List Char)) (line : List Char) :
    Option (Int × List Char) :=
  headings.find? fun h =>
    let hashes := List.replicate h.1.toNat '#'
    hashes.isPrefixOf (strip line) && (hashes ++ ' ' :: h.2).isPrefixOf (strip line)

/-- The heading that starts a section at this line; a level of zero does not. -/
def matchedHeading (headings : List (Int × List Char)) (line : List Char) :
    Option (Int × List Char) :=
  match findHeading headings line with
  | some h => if h.1 = 0 then none else some h
  | none => none

structure Splitting where
  sections : List Section := []
  headingPath : List (List Char) := []
  currentLines : List (List Char) := []
  currentStart : Int := 1
  /-- Where the current section begins, and how much text came before this line. -/
  currentOffset : Nat := 0
  position : Nat := 0

def Splitting.closeSection (s : Splitting) : List Section :=
  s.sections ++ [⟨s.headingPath, rstrip s.currentLines.flatten, s.currentStart, s.currentOffset⟩]

/-- `for line_idx, line in enumerate(lines, start=1)`. A path as long as the level of
the heading or longer is cut to one less. -/
def Splitting.addLine (headings : List (Int × List Char)) (s : Splitting)
    (line : List Char × Nat) : Splitting :=
  match matchedHeading headings line.1 with
  | none =>
    { s with currentLines := s.currentLines ++ [line.1], position := s.position + line.1.length }
  | some (level, text) =>
    { sections := if s.currentLines = [] ∧ s.sections = [] then [] else s.closeSection
      headingPath := s.headingPath.take (level.toNat - 1) ++ [text]
      currentLines := [line.1]
      currentStart := line.2
      currentOffset := s.position
      position := s.position + line.1.length }

def splitByHeading (content : ParsedContent) : List Section :=
  if content.headings = [] then [⟨[], content.body, 1, 0⟩]
  else
    let s := ((splitlinesKeepends content.body).zipIdx 1).foldl
      (Splitting.addLine content.headings) {}
    if s.currentLines = [] then s.sections else s.closeSection

/-- The values of `_build_line_to_char_map` for the lines from `pos` on. -/
def lineToCharFrom : Nat → List (List Char) → List Nat
  | _, [] => []
  | pos, line :: rest => pos :: lineToCharFrom (pos + (line.length + 1)) rest

def buildLineToCharMap (text : List Char) : List Nat := lineToCharFrom 0 (splitlines text)

/-- `line_to_char.get(line, default)`; lines count from 1. -/
def lookupLine (map : List Nat) (line : Int) (default : Nat) : Nat :=
  if 1 ≤ line then (map[line.toNat - 1]?).getD default else default

/-- One item of `add_ranges`. -/
def protectedRange (lineToChar : List Nat) (sectionStart : Int) (newlines textLength : Nat)
    (item : Int × Int) : Option (Nat × Nat) :=
  let sectionRelEnd : Int := 1 + newlines
  if item.2 < sectionStart ∨ sectionRelEnd + sectionStart - 1 < item.1 then none
  else
    let relStart := item.1 - sectionStart + 1
    let relEnd := item.2 - sectionStart + 1
    if relStart ≤ 0 ∨ relEnd ≤ 0 then none
    else
      let charStart := lookupLine lineToChar relStart 0
      let charEnd := lookupLine lineToChar (relEnd + 1) textLength
      if charStart < charEnd then some (charStart, charEnd) else none

def rangeLe (a b : Nat × Nat) : Prop := a.1 < b.1 ∨ a.1 = b.1 ∧ a.2 ≤ b.2

instance : DecidableRel rangeLe := fun _ _ => inferInstanceAs (Decidable (_ ∨ _))

def buildProtectedRangesChar (text : List Char) (content : ParsedContent) (sectionStart : Int) :
    List (Nat × Nat) :=
  let protect := protectedRange (buildLineToCharMap text) sectionStart (text.count '\n') text.length
  (content.codeBlocks.filterMap protect ++ content.tables.filterMap protect ++
    content.listItems.filterMap protect).insertionSort rangeLe

def findSafeEnd (target chunkStart : Nat) (prevEnd : Option Nat) :
    List (Nat × Nat) → Option Nat
  | [] => none
  | p :: rest =>
    if chunkStart < p.1 ∧ p.1 < target then some (if prevEnd = some p.1 then p.2 else p.1)
    else if p.1 ≤ chunkStart ∧ chunkStart ≤ p.2 ∧ target < p.2 then some p.2
    else if p.1 < target ∧ target ≤ p.2 then some p.1
    else findSafeEnd target chunkStart prevEnd rest

structure Piece where
  content : List Char
  startLine : Int
  endLine : Int
  /-- The range of the section's text that the chunk was cut from. -/
  start : Nat
  stop : Nat

/-- What the loop of `_chunk_text` works on. -/
structure Slicing where
  text : List Char
  sectionStart : Int
  estimatedChars : Nat
  overlapChars : Nat
  protectedRanges : List (Nat × Nat)

inductive Arrival where
  | first
  | skipped
  | overlapping
  | jumped (range : Nat × Nat)

structure SliceState where
  chunks : List Piece := []
  start : Nat := 0
  prevEnd : Option Nat := none
  broke : Bool := false
  arrival : Arrival := .first

namespace Slicing

variable (w : Slicing)

def slice (start stop : Nat) : List Char := (w.text.drop start).take (stop - start)

def target (s : SliceState) : Nat := min (s.start + w.estimatedChars) w.text.length

def chunkEnd (s : SliceState) : Nat :=
  let stop := (findSafeEnd (w.target s) s.start s.prevEnd w.protectedRanges).getD (w.target s)
  if stop ≤ s.start then min (s.start + 1) w.text.length else stop

def chunk (s : SliceState) : Piece :=
  let raw := w.slice s.start (w.chunkEnd s)
  let contentEnd := s.start + (rstrip raw).length
  { content := strip raw
    startLine := w.sectionStart + (w.text.take s.start).count '\n'
    endLine := w.sectionStart + (w.text.take contentEnd).count '\n'
    start := s.start
    stop := w.chunkEnd s }

/-- `prev_start_char` of the chunk before, when there is one. -/
def prevStartChar (s : SliceState) : Option Nat :=
  s.chunks.getLast?.map fun prev =>
    lookupLine (buildLineToCharMap w.text) (prev.endLine - w.sectionStart + 1) 0

/-- `next_start` before the protected ranges are looked at. -/
def overlapStart (s : SliceState) : Nat :=
  let nextStart : Int := (w.chunkEnd s : Int) - w.overlapChars
  let nextStart : Int := match w.prevStartChar s with
    | some p => max nextStart ((p : Int) + 1)
    | none => nextStart
  (max nextStart ((s.start : Int) + 1)).toNat

/-- The protected range that the next start falls into. -/
def jump (s : SliceState) : Option (Nat × Nat) :=
  w.protectedRanges.find? fun p => decide (p.1 < w.overlapStart s ∧ w.overlapStart s < p.2)

/-- The loop goes on, and what it cuts off is not blank. -/
def Emits (s : SliceState) : Prop :=
  s.broke = false ∧ s.start < w.text.length ∧ blank (w.slice s.start (w.chunkEnd s)) = false

/-- One pass of `while start < text_len`. -/
def step (s : SliceState) : Option SliceState :=
  if s.broke = true ∨ w.text.length ≤ s.start then none
  else if blank (w.slice s.start (w.chunkEnd s)) then
    some { s with start := min (s.start + 1) w.text.length, arrival := .skipped }
  else
    let chunks := s.chunks ++ [w.chunk s]
    let prevEnd := some (w.chunkEnd s)
    if w.text.length ≤ w.chunkEnd s then
      some { s with chunks := chunks, prevEnd := prevEnd, broke := true }
    else
      match w.jump s with
      | some p => some ⟨chunks, min p.2 w.text.length, prevEnd, false, .jumped p⟩
      | none => some ⟨chunks, min (w.overlapStart s) w.text.length, prevEnd, false, .overlapping⟩

/-- As many passes as there are characters are enough: see `step_chunks`. -/
def chunks : List Piece := (Iteration.run w.step w.text.length {}).chunks

def Reached (s : SliceState) : Prop := Iteration.Reaches w.step {} s

theorem lt_chunkEnd {s : SliceState} (h : s.start < w.text.length) : s.start < w.chunkEnd s := by
  unfold chunkEnd
  simp only
  split <;> omega

theorem lt_overlapStart (s : SliceState) : s.start < w.overlapStart s := by
  unfold overlapStart
  simp only
  split <;> omega

variable {w}

theorem jump_some {s : SliceState} {p : Nat × Nat} (h : w.jump s = some p) :
    p ∈ w.protectedRanges ∧ p.1 < w.overlapStart s ∧ w.overlapStart s < p.2 :=
  ⟨List.mem_of_find?_eq_some h, by simpa using List.find?_some h⟩

/-- All that one pass can do. -/
theorem step_cases {s s' : SliceState} (h : w.step s = some s') :
    s.broke = false ∧ s.start < w.text.length ∧
    ((blank (w.slice s.start (w.chunkEnd s)) = true ∧
        s' = { s with start := s.start + 1, arrival := .skipped }) ∨
      (w.Emits s ∧ w.text.length ≤ w.chunkEnd s ∧
        s' = { s with chunks := s.chunks ++ [w.chunk s], prevEnd := some (w.chunkEnd s),
                      broke := true }) ∨
      (w.Emits s ∧ w.chunkEnd s < w.text.length ∧ ∃ p, w.jump s = some p ∧
        s' = ⟨s.chunks ++ [w.chunk s], min p.2 w.text.length, some (w.chunkEnd s), false,
          .jumped p⟩) ∨
      (w.Emits s ∧ w.chunkEnd s < w.text.length ∧ w.jump s = none ∧
        s' = ⟨s.chunks ++ [w.chunk s], min (w.overlapStart s) w.text.length, some (w.chunkEnd s),
          false, .overlapping⟩)) := by
  unfold step at h
  split at h
  · cases h
  · rename_i hgo
    simp only [not_or, Bool.not_eq_true, Nat.not_le] at hgo
    obtain ⟨hbroke, hstart⟩ := hgo
    refine ⟨hbroke, hstart, ?_⟩
    split at h
    · rename_i hblank
      rw [Nat.min_eq_left hstart] at h
      exact Or.inl ⟨hblank, (Option.some.inj h).symm⟩
    · rename_i hblank
      have hemits : w.Emits s := ⟨hbroke, hstart, by simpa using hblank⟩
      right
      split at h
      · rename_i hend
        exact Or.inl ⟨hemits, hend, (Option.some.inj h).symm⟩
      · rename_i hend
        right
        cases hjump : w.jump s with
        | some p =>
          simp only [hjump] at h
          exact Or.inl ⟨hemits, Nat.lt_of_not_le hend, p, rfl, (Option.some.inj h).symm⟩
        | none =>
          simp only [hjump] at h
          exact Or.inr ⟨hemits, Nat.lt_of_not_le hend, rfl, (Option.some.inj h).symm⟩

theorem stopped_of_step_none {s : SliceState} (h : w.step s = none) :
    s.broke = true ∨ w.text.length ≤ s.start := by
  unfold step at h
  split at h
  · assumption
  · split at h
    · cases h
    · simp only at h
      split at h
      · cases h
      · split at h <;> cases h

theorem Emits.step_isSome {s : SliceState} (h : w.Emits s) :
    ∃ s', w.step s = some s' ∧ s'.chunks = s.chunks ++ [w.chunk s] := by
  obtain ⟨hbroke, hstart, hblank⟩ := h
  unfold step
  simp only [hbroke, hblank, Bool.false_eq_true, false_or, if_neg (Nat.not_le.mpr hstart), if_false]
  split
  · exact ⟨_, rfl, rfl⟩
  · split
    · exact ⟨_, rfl, rfl⟩
    · exact ⟨_, rfl, rfl⟩

def rank (w : Slicing) (s : SliceState) : Nat := if s.broke then 0 else w.text.length - s.start

theorem rank_step {s s' : SliceState} (h : w.step s = some s') : w.rank s' < w.rank s := by
  obtain ⟨hbroke, hstart, hcases⟩ := step_cases h
  have hrank : w.rank s = w.text.length - s.start := by simp [rank, hbroke]
  have hover := w.lt_overlapStart s
  rw [hrank]
  rcases hcases with ⟨_, rfl⟩ | ⟨_, _, rfl⟩ | ⟨_, _, p, hjump, rfl⟩ | ⟨_, _, _, rfl⟩
  · simp only [rank, hbroke, Bool.false_eq_true, if_false]
    omega
  · simp only [rank, if_true]
    omega
  · have hin := (jump_some hjump).2
    simp only [rank, Bool.false_eq_true, if_false]
    omega
  · simp only [rank, Bool.false_eq_true, if_false]
    omega

theorem step_chunks (w : Slicing) : w.step (Iteration.run w.step w.text.length {}) = none :=
  Iteration.step_run_eq_none w.rank (fun _ _ => rank_step) w.text.length {} (by simp [rank])

theorem reached_end (w : Slicing) : w.Reached (Iteration.run w.step w.text.length {}) :=
  Iteration.reaches_run w.text.length ({} : SliceState)

theorem Reached.reaches_end {s : SliceState} (h : w.Reached s) :
    Iteration.Reaches w.step s (Iteration.run w.step w.text.length {}) :=
  Iteration.Reaches.reaches_end h w.reached_end w.step_chunks

theorem chunks_prefix_step {s s' : SliceState} (h : w.step s = some s') :
    s.chunks <+: s'.chunks := by
  obtain ⟨_, _, ⟨_, rfl⟩ | ⟨_, _, rfl⟩ | ⟨_, _, p, _, rfl⟩ | ⟨_, _, _, rfl⟩⟩ := step_cases h
  · exact List.prefix_refl _
  · exact List.prefix_append _ _
  · exact List.prefix_append _ _
  · exact List.prefix_append _ _

theorem Reached.chunks_prefix {s : SliceState} (hs : w.Reached s) : s.chunks <+: w.chunks :=
  hs.reaches_end.preserves (fun t => s.chunks <+: t.chunks)
    (fun _ _ ht hst => ht.trans (chunks_prefix_step hst)) (List.prefix_refl _)

theorem Reached.cut_of_mem {s : SliceState} (hs : w.Reached s) :
    ∀ k ∈ s.chunks, ∃ t, w.Reached t ∧ w.Emits t ∧ k = w.chunk t := by
  induction hs with
  | refl => simp
  | @tail s s' hs hstep ih =>
    have hnew : w.Emits s → ∀ k ∈ s.chunks ++ [w.chunk s],
        ∃ t, w.Reached t ∧ w.Emits t ∧ k = w.chunk t := by
      intro hemits k hk
      rcases List.mem_append.mp hk with hk | hk
      · exact ih k hk
      · exact ⟨s, hs, hemits, List.mem_singleton.mp hk⟩
    obtain ⟨_, _, ⟨_, rfl⟩ | ⟨he, _, rfl⟩ | ⟨he, _, p, _, rfl⟩ | ⟨he, _, _, rfl⟩⟩ :=
      step_cases hstep
    · exact ih
    · exact hnew he
    · exact hnew he
    · exact hnew he

theorem mem_chunks_iff {k : Piece} :
    k ∈ w.chunks ↔ ∃ s, w.Reached s ∧ w.Emits s ∧ k = w.chunk s := by
  constructor
  · exact w.reached_end.cut_of_mem k
  · rintro ⟨s, hs, hemits, rfl⟩
    obtain ⟨s', hstep, hchunks⟩ := hemits.step_isSome
    have hreach : w.Reached s' := .tail hs hstep
    exact hreach.chunks_prefix.subset (by simp [hchunks])

end Slicing

def sectionSlicing (config : ChunkerConfig) (content : ParsedContent) (sec : Section) : Slicing where
  text := sec.body
  sectionStart := sec.startLine
  estimatedChars := config.estimatedChars
  overlapChars := config.overlapChars
  protectedRanges := buildProtectedRangesChar sec.body content sec.startLine

def Section.Short (config : ChunkerConfig) (sec : Section) : Prop :=
  estimateTokens sec.body ≤ config.maxTokens

instance (config : ChunkerConfig) (sec : Section) : Decidable (sec.Short config) :=
  inferInstanceAs (Decidable (_ ≤ _))

def chunkText (config : ChunkerConfig) (content : ParsedContent) (sec : Section) : List Piece :=
  if blank sec.body then []
  else if sec.Short config then
    [⟨strip sec.body, sec.startLine, sec.startLine + sec.body.count '\n', 0, sec.body.length⟩]
  else (sectionSlicing config content sec).chunks

def locate (line : Int) (text : List Char) : List Char :=
  let firstLine := strip (((splitFirst '\n' text).take 60).map fun c => if c = '\n' then ' ' else c)
  'L' :: (strInt line ++ ' ' :: firstLine)

def locateEnd (line : Int) (text : List Char) : List Char :=
  let lastLine := strip (splitLast '\n' text)
  let lastLinePreview := strip ((lastLine.take 60).map fun c => if c = '\n' then ' ' else c)
  'L' :: (strInt line ++ ' ' :: lastLinePreview)

structure Cut where
  sec : Section
  piece : Piece

def cuts (config : ChunkerConfig) (content : ParsedContent) : List Cut :=
  (splitByHeading content).flatMap fun sec => (chunkText config content sec).map (Cut.mk sec)

/-- The first 16 digits of `hashlib.sha256(…).hexdigest()`, the text of which is a
parameter. -/
def configurationHash (sha256 : List Char → List Char) (version : List Char)
    (config : ChunkerConfig) : List Char :=
  (sha256 (version ++ '|' :: (strInt config.maxTokens ++ '|' :: strInt config.overlapTokens))).take 16

structure ChunkLineage where
  documentId : UUID
  versionId : UUID
  allowedPrincipals : List String
  version : List Char := "v1".toList

/-- `Chunker.chunk`; `chunkId` gives the ids that are drawn, in order. -/
def chunk (sha256 : List Char → List Char) (config : ChunkerConfig) (content : ParsedContent)
    (lineage : ChunkLineage) (chunkId : UuidSource) : List Chunk :=
  (cuts config content).mapIdx fun ordinal cut =>
    { chunkId := chunkId ordinal
      documentId := lineage.documentId
      versionId := lineage.versionId
      ordinal := ordinal
      headingPath := cut.sec.headingPath
      content := cut.piece.content
      tokenCount := estimateTokens cut.piece.content
      checksum := (sha256 cut.piece.content).take 16
      startLocator := some (locate cut.piece.startLine cut.piece.content)
      endLocator := some (locateEnd cut.piece.endLine cut.piece.content)
      allowedPrincipals := lineage.allowedPrincipals
      chunkerVersion := lineage.version
      configurationHash := configurationHash sha256 lineage.version config }

section

variable {sha256 : List Char → List Char} {config : ChunkerConfig} {content : ParsedContent}
  {lineage : ChunkLineage} {chunkId : UuidSource}

theorem chunk_lineage {c : Chunk} (hc : c ∈ chunk sha256 config content lineage chunkId) :
    c.documentId = lineage.documentId ∧ c.versionId = lineage.versionId := by
  obtain ⟨i, hi, rfl⟩ := List.mem_mapIdx.mp hc
  exact ⟨rfl, rfl⟩

theorem chunk_ordinals :
    (chunk sha256 config content lineage chunkId).map Chunk.ordinal =
      List.range (chunk sha256 config content lineage chunkId).length := by
  apply List.ext_getElem
  · simp
  · intro i hi _
    simp [chunk]

end

theorem chunkText_content_ne_nil {config : ChunkerConfig} {content : ParsedContent}
    {sec : Section} : ∀ k ∈ chunkText config content sec, k.content ≠ [] := by
  intro k hk hnil
  unfold chunkText at hk
  split at hk
  · cases hk
  · rename_i hbody
    split at hk
    · obtain rfl := List.mem_singleton.mp hk
      exact hbody (strip_eq_nil_iff.mp hnil)
    · obtain ⟨s, _, hemits, rfl⟩ := Slicing.mem_chunks_iff.mp hk
      have hblank := strip_eq_nil_iff.mp hnil
      rw [hemits.2.2] at hblank
      cases hblank

end GroundGraph.Ingestion
