import GroundGraph.Ingestion.Parsers

/-! The HTML parser of `application/ingestion/parsers.py`: the markup is rewritten as markdown by
one regular expression after the other, and what is extracted comes from the result. A pattern is
the function that matches it where the text begins; its repetitions are all determined by what
follows them.
-/

set_option autoImplicit false

namespace GroundGraph.Ingestion

open PyText

/-- `re.sub`: the pattern gives what takes the place of its match, and the text behind it. -/
def substitute (pattern : List Char → Option (List Char × List Char)) : Nat → List Char → List Char
  | 0, s => s
  | _, [] => []
  | fuel + 1, c :: s =>
    match pattern (c :: s) with
    | some (replaced, rest) => replaced ++ substitute pattern fuel rest
    | none => c :: substitute pattern fuel s

def sub (pattern : List Char → Option (List Char × List Char)) (s : List Char) : List Char :=
  substitute pattern s.length s

/-- `re.findall`, with the text of the group. -/
def findAllFrom (pattern : List Char → Option (List Char × List Char)) :
    Nat → List Char → List (List Char)
  | 0, _ => []
  | _, [] => []
  | fuel + 1, c :: s =>
    match pattern (c :: s) with
    | some (group, rest) => group :: findAllFrom pattern fuel rest
    | none => findAllFrom pattern fuel s

def findAll (pattern : List Char → Option (List Char × List Char)) (s : List Char) :
    List (List Char) :=
  findAllFrom pattern s.length s

/-- `re.search`, with the text of the group. -/
def search (pattern : List Char → Option (List Char × List Char)) :
    List Char → Option (List Char)
  | [] => none
  | c :: s =>
    match pattern (c :: s) with
    | some (group, _) => some group
    | none => search pattern s

/-- A lower case letter under `re.IGNORECASE`; the dotless and the dotted `i` count as `i`. -/
def sameLetter (letter c : Char) : Bool :=
  decide (c.toLower = letter) ||
    (decide (letter = 'i') && (decide (c.toNat = 0x131) || decide (c.toNat = 0x130)))

def literal : List Char → List Char → Option (List Char)
  | [], s => some s
  | _ :: _, [] => none
  | letter :: letters, c :: s => if sameLetter letter c then literal letters s else none

/-- `(.*?)` and what closes it. -/
def upTo (closing : List Char → Option (List Char)) : List Char → Option (List Char × List Char)
  | [] => (closing []).map fun rest => ([], rest)
  | c :: s =>
    match closing (c :: s) with
    | some rest => some ([], rest)
    | none => (upTo closing s).map fun m => (c :: m.1, m.2)

/-- `[^>]*>`. -/
def tagEnd (s : List Char) : Option (List Char) :=
  match s.dropWhile (· ≠ '>') with
  | [] => none
  | _ :: rest => some rest

/-- `opening[^>]*>(.*?)closing`. -/
def element (opening closing : String) (s : List Char) : Option (List Char × List Char) :=
  ((literal opening.toList s).bind tagEnd).bind (upTo (literal closing.toList))

/-- `opening[^>]*>(.+?)closing`. -/
def elementText (opening closing : String) (s : List Char) : Option (List Char × List Char) :=
  match (literal opening.toList s).bind tagEnd with
  | none => none
  | some [] => none
  | some (c :: rest) => (upTo (literal closing.toList) rest).map fun m => (c :: m.1, m.2)

/-- `<[^>]+>`. -/
def matchTag : List Char → Option (List Char)
  | '<' :: s => if s.head? = some '>' then none else tagEnd s
  | _ => none

/-- `re.sub(r"<[^>]+>", "", text).strip()`. -/
def innerText (text : List Char) : List Char :=
  strip (sub (fun s => (matchTag s).map fun rest => ([], rest)) text)

def wholeMatch (pattern : List Char → Option (List Char × List Char)) (s : List Char) :
    Option (List Char × List Char) :=
  (pattern s).map fun m => (s.take (s.length - m.2.length), m.2)

/-- `(?:\s[^>]*)?>`. -/
def headingTagEnd : List Char → Option (List Char)
  | [] => none
  | c :: s => if c = '>' then some s else if isSpace c then tagEnd s else none

/-- `<h([1-6])(?:\s[^>]*)?>(.*?)</h\1>`, with the level and the text. -/
def matchHtmlHeading (s : List Char) : Option (Nat × List Char × List Char) :=
  match literal "<h".toList s with
  | none => none
  | some [] => none
  | some (digit :: s) =>
    if '1' ≤ digit ∧ digit ≤ '6' then
      ((headingTagEnd s).bind (upTo (literal ("</h".toList ++ [digit, '>'])))).map fun m =>
        (digit.toNat - '0'.toNat, m)
    else none

def replaceHeading (s : List Char) : Option (List Char × List Char) :=
  (matchHtmlHeading s).map fun m =>
    ('\n' :: (List.replicate m.1 '#' ++ ' ' :: (innerText m.2.1 ++ ['\n'])), m.2.2)

def replaceCodeBlock (s : List Char) : Option (List Char × List Char) :=
  (element "<pre><code" "</code></pre>" s).map fun m =>
    ("\n```\n".toList ++ innerText m.1 ++ "\n```\n".toList, m.2)

def replaceCode (s : List Char) : Option (List Char × List Char) :=
  (element "<code" "</code>" s).map fun m => ("`".toList ++ innerText m.1 ++ "`".toList, m.2)

/-- `opening[hd]`. -/
def cellTag (opening : String) (s : List Char) : Option (List Char) :=
  match literal opening.toList s with
  | none => none
  | some [] => none
  | some (c :: rest) => if sameLetter 'h' c || sameLetter 'd' c then some rest else none

/-- `<t[hd][^>]*>(.*?)</t[hd]>`. -/
def matchCell (s : List Char) : Option (List Char × List Char) :=
  ((cellTag "<t" s).bind tagEnd).bind (upTo fun s => (cellTag "</t" s).bind (literal ['>']))

def tableRow (cells : List (List Char)) : List Char :=
  "| ".toList ++ " | ".toList.intercalate cells ++ " |".toList

/-- `_replace_table`, on the text of the table. A table of one row ends with the separator. -/
def markdownTable (inner : List Char) : List Char :=
  let rows := findAll (element "<tr" "</tr>") inner
  let mdRows := (rows.map (findAll matchCell)).filterMap fun cells =>
    if cells = [] then none else some (tableRow (cells.map innerText))
  match mdRows with
  | [] => []
  | first :: more =>
    let sep := tableRow (List.replicate (first.count '|' - 1) "---".toList)
    '\n' :: (['\n'].intercalate (first :: sep :: more) ++ ['\n'])

def replaceTable (s : List Char) : Option (List Char × List Char) :=
  (wholeMatch (element "<table" "</table>") s).map fun m => (markdownTable m.1, m.2)

def replaceListItem (s : List Char) : Option (List Char × List Char) :=
  (wholeMatch (element "<li" "</li>") s).map fun m =>
    ("\n- ".toList ++ innerText m.1 ++ ['\n'], m.2)

def replaceTag (s : List Char) : Option (List Char × List Char) :=
  (matchTag s).map fun rest => ([' '], rest)

/-- `\n{3,}`. -/
def replaceNewlines (s : List Char) : Option (List Char × List Char) :=
  if 3 ≤ (s.takeWhile (· = '\n')).length then some (['\n', '\n'], s.dropWhile (· = '\n')) else none

def isBlank (c : Char) : Bool := decide (c ∈ [' ', '\t'])

/-- `[ \t]+`. -/
def replaceBlanks (s : List Char) : Option (List Char × List Char) :=
  if s.takeWhile isBlank = [] then none else some ([' '], s.dropWhile isBlank)

def normalizeToMarkdown (html : List Char) : List Char :=
  let html := sub replaceHeading html
  let html := sub replaceCodeBlock html
  let html := sub replaceCode html
  let html := sub replaceTable html
  let html := sub replaceListItem html
  let text := sub replaceTag html
  let text := sub replaceNewlines text
  strip (sub replaceBlanks text)

def extractTitle (html : List Char) : List Char :=
  match search (elementText "<title" "</title>") html with
  | some title => strip title
  | none =>
    match search (elementText "<h1" "</h1>") html with
    | some title => strip title
    | none => []

/-- `HtmlParser.parse`; it extracts by the same rules as the parser of markdown. -/
def parseHtml (content : List UInt8) : ParsedContent :=
  let text := decodeUtf8 content
  let title := extractTitle text
  let body := normalizeToMarkdown text
  { title := if title = [] then "untitled".toList else title
    body := body
    mediaType := "text/html"
    headings := extractHeadings body
    codeBlocks := extractCodeBlocks body
    tables := extractTables body
    listItems := extractListItems body }

end GroundGraph.Ingestion
