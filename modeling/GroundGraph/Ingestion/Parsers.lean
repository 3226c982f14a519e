import GroundGraph.Library.PyText
import Mathlib.Data.List.DropRight

/-! The markdown parser: `application/ingestion/parsers.py`. A regular expression is
the function that finds its leftmost match, with the greedy and lazy repetitions
resolved.
-/

set_option autoImplicit false

namespace GroundGraph.Ingestion

open PyText

structure ParsedContent where
  title : List Char
  body : List Char
  mediaType : String
  headings : List (Int × List Char) := []
  codeBlocks : List (Int × Int) := []
  tables : List (Int × Int) := []
  listItems : List (Int × Int) := []

/-- A sequence that has begun: the bits so far, the bytes it lacks, and the bounds of
the next one. -/
structure Pending where
  value : Nat
  needed : Nat
  lower : Nat := 0x80
  upper : Nat := 0xBF

def replacement : Char := Char.ofNat 0xFFFD

def leadByte (b : Nat) : Char ⊕ Pending :=
  if b < 0x80 then .inl (Char.ofNat b)
  else if b < 0xC2 then .inl replacement
  else if b < 0xE0 then .inr { value := b - 0xC0, needed := 1 }
  else if b = 0xE0 then .inr { value := 0, needed := 2, lower := 0xA0 }
  else if b = 0xED then .inr { value := 0xD, needed := 2, upper := 0x9F }
  else if b < 0xF0 then .inr { value := b - 0xE0, needed := 2 }
  else if b = 0xF0 then .inr { value := 0, needed := 3, lower := 0x90 }
  else if b < 0xF4 then .inr { value := b - 0xF0, needed := 3 }
  else if b = 0xF4 then .inr { value := 4, needed := 3, upper := 0x8F }
  else .inl replacement

def decodeFrom : Option Pending → List UInt8 → List Char
  | none, [] => []
  | some _, [] => [replacement]
  | none, b :: bs =>
    match leadByte b.toNat with
    | .inl c => c :: decodeFrom none bs
    | .inr p => decodeFrom (some p) bs
  | some p, b :: bs =>
    if p.lower ≤ b.toNat ∧ b.toNat ≤ p.upper then
      let value := p.value * 64 + (b.toNat - 0x80)
      if p.needed = 1 then Char.ofNat value :: decodeFrom none bs
      else decodeFrom (some { value := value, needed := p.needed - 1 }) bs
    else
      match leadByte b.toNat with
      | .inl c => replacement :: c :: decodeFrom none bs
      | .inr p => replacement :: decodeFrom (some p) bs

def decodeUtf8 (content : List UInt8) : List Char := decodeFrom none content

/-- `\s+(.+)$` from here on: the group, and the text behind the match. White space
that reaches the end of the text gives back what the group needs. -/
def matchSpaceText (s : List Char) : Option (List Char × List Char) :=
  let spaces := s.takeWhile isSpace
  let after := s.dropWhile isSpace
  if spaces = [] then none
  else if after = [] then
    let kept := spaces.rdropWhile (· = '\n')
    if 2 ≤ kept.length then some (kept.drop (kept.length - 1), spaces.rtakeWhile (· = '\n'))
    else none
  else some (after.takeWhile (· ≠ '\n'), after.dropWhile (· ≠ '\n'))

/-- `\s*\n` from here on: the text behind the match. -/
def matchSpaceNewline (s : List Char) : Option (List Char) :=
  let spaces := s.takeWhile isSpace
  if '\n' ∈ spaces then some (spaces.rtakeWhile (· ≠ '\n') ++ s.dropWhile isSpace) else none

/-- `.*?\n---\s*\n`. -/
def matchFrontmatterEnd : List Char → Option (List Char)
  | [] => none
  | c :: s =>
    match (if (c :: s).take 4 = "\n---".toList then matchSpaceNewline ((c :: s).drop 4) else none) with
    | some rest => some rest
    | none => matchFrontmatterEnd s

/-- `^---\s*\n.*?\n---\s*\n`: the first `\s*\n` ends at the last newline with which
the rest matches. -/
def matchFrontmatter (text : List Char) : Option (List Char) :=
  if text.take 3 = "---".toList then
    let s := text.drop 3
    let newlines := (List.range (s.takeWhile isSpace).length).filter fun k => s[k]? = some '\n'
    newlines.reverse.findSome? fun k => matchFrontmatterEnd (s.drop (k + 1))
  else none

def titleFromFirstHeader (text : List Char) : List Char :=
  match text with
  | '#' :: s =>
    match matchSpaceText s with
    | some (title, _) => strip title
    | none => []
  | _ => []

/-- `_strip_frontmatter`, which looks for the title behind the front matter and
leaves the text as it is. -/
def stripFrontmatter (text : List Char) : List Char × List Char :=
  match matchFrontmatter text with
  | none => (titleFromFirstHeader text, text)
  | some rest => (titleFromFirstHeader rest, text)

/-- `^(#{1,6})\s+(.+)$` at the start of a line. -/
def matchHeading (s : List Char) : Option (Int × List Char × List Char) :=
  let level := (s.takeWhile (· = '#')).length
  if 1 ≤ level ∧ level ≤ 6 then
    (matchSpaceText (s.drop level)).map fun m => (level, strip m.1, m.2)
  else none

/-- `re.finditer`; `lineStart` says whether a line begins here. -/
def headingsFrom : Nat → Bool → List Char → List (Int × List Char)
  | 0, _, _ => []
  | _, _, [] => []
  | fuel + 1, lineStart, c :: s =>
    match (if lineStart then matchHeading (c :: s) else none) with
    | some (level, text, rest) => (level, text) :: headingsFrom fuel false rest
    | none => headingsFrom fuel (c = '\n') s

def extractHeadings (body : List Char) : List (Int × List Char) :=
  headingsFrom body.length true body

def fenceLines (body : List Char) : List Int :=
  ((newlineLines body).zipIdx 1).filterMap fun l =>
    if l.1.1.take 3 = "```".toList then some (l.2 : Int) else none

/-- `(starts[i], starts[i + 1])` for every other `i`. -/
def pairUp : List Int → List (Int × Int)
  | a :: b :: rest => (a, b) :: pairUp rest
  | _ => []

def extractCodeBlocks (body : List Char) : List (Int × Int) := pairUp (fenceLines body)

def lineAt (ls : List (List Char)) (i : Nat) : List Char := ls.getD i []

/-- `^\|[-:| ]+\|$`. -/
def isSeparatorRow (line : List Char) : Bool :=
  decide (3 ≤ line.length) && decide (line.head? = some '|') && decide (line.getLast? = some '|') &&
    line.all fun c => decide (c ∈ ['-', ':', '|', ' '])

/-- `while end <= len(lines) and lines[end - 1].strip().startswith("|")`. -/
def tableEnd (ls : List (List Char)) : Nat → Nat → Nat
  | 0, stop => stop
  | fuel + 1, stop =>
    if stop ≤ ls.length ∧ (strip (lineAt ls (stop - 1))).head? = some '|' then
      tableEnd ls fuel (stop + 1)
    else stop

def isTableHead (ls : List (List Char)) (i : Nat) : Bool :=
  let line := strip (lineAt ls i)
  decide ('|' ∈ line) && decide (line.take 3 ≠ "```".toList) && decide (i + 1 < ls.length) &&
    isSeparatorRow (strip (lineAt ls (i + 1)))

def tablesFrom (ls : List (List Char)) : Nat → Nat → List (Int × Int)
  | 0, _ => []
  | fuel + 1, i =>
    if i < ls.length then
      if isTableHead ls i then
        let second := decide (i + 2 < ls.length) && isSeparatorRow (strip (lineAt ls (i + 2)))
        let stop := tableEnd ls (ls.length + 1) (if second then i + 3 else i + 2)
        ((i : Int) + 1, (stop : Int) - 1) :: tablesFrom ls fuel stop
      else tablesFrom ls fuel (i + 1)
    else []

def extractTables (body : List Char) : List (Int × Int) :=
  tablesFrom (splitlines body) (splitlines body).length 0

/-- `\s+\S`. -/
def matchSpaceNonSpace (s : List Char) : Bool :=
  decide (s.takeWhile isSpace ≠ []) && decide (s.dropWhile isSpace ≠ [])

/-- `\d+\.`: the text behind the match. -/
def matchNumberDot (s : List Char) : Option (List Char) :=
  if s.takeWhile isDecimal = [] then none
  else
    match s.dropWhile isDecimal with
    | '.' :: rest => some rest
    | _ => none

def isBullet (c : Char) : Bool := decide (c ∈ ['-', '*', '+'])

/-- `^[-*+]\s+\S|^\d+\.\s+\S`. -/
def isListItem (line : List Char) : Bool :=
  (match line with
    | c :: rest => isBullet c && matchSpaceNonSpace rest
    | [] => false) ||
  match matchNumberDot line with
  | some rest => matchSpaceNonSpace rest
  | none => false

/-- The start of an item further in. -/
def startsItem (line : List Char) : Bool :=
  (match line with
    | c :: _ => isBullet c
    | [] => false) || (matchNumberDot line).isSome

/-- `while j < len(lines)`; the `indent` of the item's own stripped line is 0. -/
def listItemEnd (ls : List (List Char)) (indent : Nat) : Nat → Nat → Nat
  | 0, j => j
  | fuel + 1, j =>
    if j < ls.length then
      let line := lineAt ls j
      let nextLine := strip line
      let nextIndent := line.length - (lstrip line).length
      if nextLine = [] then listItemEnd ls indent fuel (j + 1)
      else if indent < nextIndent ∧ startsItem nextLine = true then j
      else if nextIndent ≤ indent ∧ nextLine.head? ≠ some ' ' then j
      else listItemEnd ls indent fuel (j + 1)
    else j

def listItemsFrom (ls : List (List Char)) : Nat → Nat → List (Int × Int)
  | 0, _ => []
  | fuel + 1, i =>
    if i < ls.length then
      let line := strip (lineAt ls i)
      if isListItem line then
        let indent := line.length - (lstrip line).length
        let j := listItemEnd ls indent ls.length (i + 1)
        ((i : Int) + 1, (j : Int)) :: listItemsFrom ls fuel j
      else listItemsFrom ls fuel (i + 1)
    else []

def extractListItems (body : List Char) : List (Int × Int) :=
  listItemsFrom (splitlines body) (splitlines body).length 0

/-- `MarkdownParser.parse`. -/
def parseMarkdown (content : List UInt8) : ParsedContent :=
  let (title, body) := stripFrontmatter (decodeUtf8 content)
  { title := if title = [] then "untitled".toList else title
    body := body
    mediaType := "text/markdown"
    headings := extractHeadings body
    codeBlocks := extractCodeBlocks body
    tables := extractTables body
    listItems := extractListItems body }

/-- Lines `item.1` to `item.2` of `n` lines. -/
def InLines (n : Nat) (item : Int × Int) : Prop := 1 ≤ item.1 ∧ item.1 ≤ item.2 ∧ item.2 ≤ n

theorem pairUp_inLines {n : Nat} : ∀ starts : List Int, starts.Pairwise (· < ·) →
    (∀ a ∈ starts, 1 ≤ a ∧ a ≤ n) → ∀ item ∈ pairUp starts, InLines n item
  | [], _, _ => by simp [pairUp]
  | [_], _, _ => by simp [pairUp]
  | a :: b :: rest, hsorted, hbounds => by
    intro item hitem
    rw [List.pairwise_cons, List.pairwise_cons] at hsorted
    have ha := hbounds a (by simp)
    have hb := hbounds b (by simp)
    have hab := hsorted.1 b (by simp)
    rcases List.mem_cons.mp hitem with rfl | hitem
    · exact ⟨ha.1, Int.le_of_lt hab, hb.2⟩
    · exact pairUp_inLines rest hsorted.2.2
        (fun c hc => hbounds c (List.mem_cons_of_mem _ (List.mem_cons_of_mem _ hc))) item hitem

theorem lineNumbers_sorted {α : Type} (wanted : α → Prop) [DecidablePred wanted] (ls : List α)
    (n : Nat) :
    let numbers := (ls.zipIdx n).filterMap fun l => if wanted l.1 then some (l.2 : Int) else none
    numbers.Pairwise (· < ·) ∧ ∀ a ∈ numbers, (n : Int) ≤ a ∧ a < n + ls.length := by
  induction ls generalizing n with
  | nil => simp
  | cons l rest ih =>
    obtain ⟨hsorted, hbounds⟩ := ih (n + 1)
    have hrest : ∀ a ∈ (rest.zipIdx (n + 1)).filterMap
        (fun l => if wanted l.1 then some (l.2 : Int) else none),
        (n : Int) < a ∧ a < n + (rest.length + 1 : Nat) := by
      intro a ha
      have hb := hbounds a ha
      push_cast at hb ⊢
      omega
    by_cases hl : wanted l
    · simp only [List.zipIdx_cons, List.filterMap_cons, hl, if_true, List.length_cons]
      refine ⟨List.pairwise_cons.mpr ⟨fun a ha => (hrest a ha).1, hsorted⟩, ?_⟩
      intro a ha
      rcases List.mem_cons.mp ha with rfl | ha
      · push_cast
        omega
      · exact ⟨Int.le_of_lt (hrest a ha).1, (hrest a ha).2⟩
    · simp only [List.zipIdx_cons, List.filterMap_cons, hl, if_false, List.length_cons]
      exact ⟨hsorted, fun a ha => ⟨Int.le_of_lt (hrest a ha).1, (hrest a ha).2⟩⟩

theorem extractCodeBlocks_inLines (body : List Char) :
    ∀ item ∈ extractCodeBlocks body, InLines (newlineLines body).length item := by
  obtain ⟨hsorted, hbounds⟩ :=
    lineNumbers_sorted (fun l : List Char × List Char => l.1.take 3 = "```".toList)
      (newlineLines body) 1
  refine pairUp_inLines (fenceLines body) hsorted fun a ha => ?_
  have hb := hbounds a ha
  push_cast at hb
  omega

theorem tableEnd_bounds (ls : List (List Char)) (fuel stop : Nat) :
    stop ≤ tableEnd ls fuel stop ∧ (stop ≤ ls.length + 1 → tableEnd ls fuel stop ≤ ls.length + 1) := by
  induction fuel generalizing stop with
  | zero => exact ⟨Nat.le_refl _, id⟩
  | succ fuel ih =>
    simp only [tableEnd]
    split
    · rename_i h
      have hnext := ih (stop + 1)
      omega
    · exact ⟨Nat.le_refl _, id⟩

theorem tablesFrom_inLines (ls : List (List Char)) (fuel i : Nat) :
    ∀ item ∈ tablesFrom ls fuel i, InLines ls.length item := by
  induction fuel generalizing i with
  | zero => simp [tablesFrom]
  | succ fuel ih =>
    intro item hitem
    simp only [tablesFrom] at hitem
    split at hitem
    · split at hitem
      · rename_i hhead
        rcases List.mem_cons.mp hitem with rfl | hitem
        · have hsecond : i + 1 < ls.length := by
            simp only [isTableHead, Bool.and_eq_true, decide_eq_true_eq] at hhead
            exact hhead.1.2
          split
          · rename_i hthird
            have hin : i + 2 < ls.length := by
              simp only [Bool.and_eq_true, decide_eq_true_eq] at hthird
              exact hthird.1
            have hb := tableEnd_bounds ls (ls.length + 1) (i + 3)
            refine ⟨?_, ?_, ?_⟩ <;> simp only <;> omega
          · have hb := tableEnd_bounds ls (ls.length + 1) (i + 2)
            refine ⟨?_, ?_, ?_⟩ <;> simp only <;> omega
        · exact ih _ item hitem
      · exact ih _ item hitem
    · cases hitem

theorem extractTables_inLines (body : List Char) :
    ∀ item ∈ extractTables body, InLines (splitlines body).length item :=
  tablesFrom_inLines _ _ _

theorem listItemEnd_bounds (ls : List (List Char)) (indent fuel j : Nat) :
    j ≤ listItemEnd ls indent fuel j ∧ (j ≤ ls.length → listItemEnd ls indent fuel j ≤ ls.length) := by
  induction fuel generalizing j with
  | zero => exact ⟨Nat.le_refl _, id⟩
  | succ fuel ih =>
    have hnext := ih (j + 1)
    simp only [listItemEnd]
    split
    · split
      · omega
      · split
        · exact ⟨Nat.le_refl _, id⟩
        · split
          · exact ⟨Nat.le_refl _, id⟩
          · omega
    · exact ⟨Nat.le_refl _, id⟩

theorem listItemsFrom_inLines (ls : List (List Char)) (fuel i : Nat) :
    ∀ item ∈ listItemsFrom ls fuel i, InLines ls.length item := by
  induction fuel generalizing i with
  | zero => simp [listItemsFrom]
  | succ fuel ih =>
    intro item hitem
    simp only [listItemsFrom] at hitem
    split at hitem
    · rename_i hi
      split at hitem
      · rcases List.mem_cons.mp hitem with rfl | hitem
        · have hb := listItemEnd_bounds ls
            ((strip (lineAt ls i)).length - (lstrip (strip (lineAt ls i))).length) ls.length (i + 1)
          refine ⟨?_, ?_, ?_⟩ <;> simp only <;> omega
        · exact ih _ item hitem
      · exact ih _ item hitem
    · cases hitem

theorem extractListItems_inLines (body : List Char) :
    ∀ item ∈ extractListItems body, InLines (splitlines body).length item :=
  listItemsFrom_inLines _ _ _

end GroundGraph.Ingestion
