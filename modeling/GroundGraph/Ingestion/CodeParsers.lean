import GroundGraph.Ingestion.Parsers

/-! The parsers of Python and TypeScript in `application/ingestion/parsers.py`. A line that begins
with the keyword of a definition and holds its delimiter is a heading, and the number of the line
takes the place of the level.
-/

set_option autoImplicit false

namespace GroundGraph.Ingestion

open PyText

/-- `stripped.startswith(keyword) and delimiter in stripped`; the name ends at the first of the
characters in `ends`. -/
structure DefinitionRule where
  keyword : String
  delimiter : Char
  ends : List Char

/-- `rest.split(a)[0].split(b)[0].strip()`. -/
def DefinitionRule.name (rule : DefinitionRule) (rest : List Char) : List Char :=
  strip (rule.ends.foldl (fun s stop => splitFirst stop s) rest)

def DefinitionRule.heading (rule : DefinitionRule) (stripped : List Char) : Option (List Char) :=
  if rule.keyword.toList.isPrefixOf stripped && decide (rule.delimiter ∈ stripped) then
    some (rule.keyword.toList ++ rule.name (stripped.drop rule.keyword.toList.length))
  else none

def definitionOf (rules : List DefinitionRule) (line : List Char) : Option (List Char) :=
  rules.findSome? fun rule => rule.heading (strip line)

def extractHeadingsFromCode (rules : List DefinitionRule) (ls : List (List Char)) :
    List (Int × List Char) :=
  (ls.zipIdx 1).filterMap fun l => (definitionOf rules l.1).map fun text => ((l.2 : Int), text)

/-- `_extract_code_blocks` of the two parsers; here a fence may be indented. -/
def extractFencedLines (text : List Char) : List (Int × Int) :=
  pairUp (((splitlines text).zipIdx 1).filterMap fun l =>
    if (strip l.1).take 3 = "```".toList then some (l.2 : Int) else none)

def firstLine (text : List Char) : List Char := strip (splitFirst '\n' text)

def orNone (value : List Char) : Option (List Char) := if value = [] then none else some value

def pyRules : List DefinitionRule :=
  [⟨"class ", ':', ['(', ':']⟩, ⟨"def ", '(', ['(']⟩, ⟨"async def ", '(', ['(']⟩]

/-- `_title_from_definitions`, which names a definition as a heading is. -/
def pyTitleFromDefinitions (ls : List (List Char)) : Option (List Char) :=
  ls.findSome? (definitionOf pyRules)

def titleFromFilename (text : List Char) : Option (List Char) :=
  let first := firstLine text
  if "# ".toList.isPrefixOf first || "#!".toList.isPrefixOf first then
    orNone (strip ((first.take 120).drop 2))
  else none

/-- `PyParser.parse`. -/
def parsePython (content : List UInt8) : ParsedContent :=
  let text := decodeUtf8 content
  let ls := splitlines text
  { title := ((pyTitleFromDefinitions ls).or (titleFromFilename text)).getD "untitled".toList
    body := text
    mediaType := "text/x-python"
    headings := extractHeadingsFromCode pyRules ls
    codeBlocks := extractFencedLines text }

def tsRules : List DefinitionRule :=
  [⟨"class ", '{', ['{', '<']⟩, ⟨"function ", '(', ['(']⟩, ⟨"export class ", '{', ['{', '<']⟩,
   ⟨"export function ", '(', ['(']⟩, ⟨"interface ", '{', ['{', '<']⟩, ⟨"type ", '=', ['=']⟩]

/-- The rules of the title: the name ends at the delimiter alone, and `export` is left out. -/
def tsTitleRules : List (DefinitionRule × String) :=
  [(⟨"class ", '{', ['{']⟩, "class "), (⟨"function ", '(', ['(']⟩, "function "),
   (⟨"export class ", '{', ['{']⟩, "class "), (⟨"export function ", '(', ['(']⟩, "function "),
   (⟨"interface ", '{', ['{']⟩, "interface "), (⟨"type ", '=', ['=']⟩, "type ")]

def extractTsDefinitionTitle (line : List Char) : Option (List Char) :=
  tsTitleRules.findSome? fun candidate =>
    (candidate.1.heading (strip line)).map fun _ => candidate.2.toList ++
      candidate.1.name ((strip line).drop candidate.1.keyword.toList.length)

/-- The first comment decides, also when nothing stands in it. -/
def titleFromComment (ls : List (List Char)) : Option (List Char) :=
  (ls.map strip).find? (fun stripped => "// ".toList.isPrefixOf stripped) |>.bind
    fun stripped => orNone (strip ((stripped.take 120).drop 3))

/-- `TsParser.parse`. -/
def parseTypescript (content : List UInt8) : ParsedContent :=
  let text := decodeUtf8 content
  let ls := splitlines text
  { title := ((ls.findSome? extractTsDefinitionTitle).or (titleFromComment ls)).getD
      "untitled".toList
    body := text
    mediaType := "text/typescript"
    headings := extractHeadingsFromCode tsRules ls
    codeBlocks := extractFencedLines text }

end GroundGraph.Ingestion
