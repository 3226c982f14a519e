import GroundGraph.Library.TextReplacement

/-! `sanitize_question` of `application/security/prompt_injection.py`: five patterns, each replaced
in what the one before it left.
-/

set_option autoImplicit false

namespace GroundGraph.Security

open TextPattern

/-- The letters besides `a` to `z` and `A` to `Z` that a letter of a pattern matches when the
case is ignored: the dotless and the dotted `i`, the long `s` and the Kelvin sign. -/
def foldedLetters : List Char :=
  [Char.ofNat 0x131, Char.ofNat 0x130, Char.ofNat 0x17F, Char.ofNat 0x212A]

def variants (c : Char) : List Char :=
  [c.toLower, c.toUpper] ++
    (if c.toLower = 'i' then [Char.ofNat 0x131, Char.ofNat 0x130]
    else if c.toLower = 's' then [Char.ofNat 0x17F]
    else if c.toLower = 'k' then [Char.ofNat 0x212A] else [])

/-- `re.IGNORECASE` for a character of a pattern that is in ASCII. -/
def ignoringCase (c d : Char) : Bool := decide (d ∈ variants c)

theorem of_all {s : List Char} {P : Char → Prop} [DecidablePred P]
    (h : s.all fun c => decide (P c)) : ∀ c ∈ s, P c :=
  fun c hc => of_decide_eq_true (List.all_eq_true.mp h c hc)

/-- `str.isalnum` of one character, which is known here for ASCII and the folded letters. -/
structure WordChars where
  isAlnum : Char → Bool
  ascii : ∀ c : Char, c.toNat < 128 → isAlnum c = c.isAlphanum
  folded : ∀ c ∈ foldedLetters, isAlnum c = true

/-- `\w`. -/
def WordChars.isWord (w : WordChars) (c : Char) : Bool := w.isAlnum c || decide (c = '_')

def text (s : String) : Pattern Char := literal ignoringCase s.toList

/-- `[^c]*`. -/
def upTo (c : Char) : Item Char := .many fun d => decide (d ≠ c)

/-- `$`: the end, or a newline that is the last character. -/
def endOfText : Item Char := .here fun s => decide (s = [] ∨ s = ['\n'])

def removed : List Char := "[REMOVED]".toList

/-- `<script[^>]*>.*?</script>`; the dot does not match a newline. -/
def scriptPattern : Pattern Char :=
  text "<script" ++ [upTo '>'] ++ text ">" ++ [.fewest fun c => decide (c ≠ '\n')] ++
    text "</script>"

/-- `javascript:`. -/
def javascriptPattern : Pattern Char := text "javascript:"

/-- `on\w+=`. -/
def attributePattern (w : WordChars) : Pattern Char :=
  text "on" ++ [.one w.isWord, .many w.isWord] ++ text "="

/-- `${jndi:[^}]*}`, where the dollar is not escaped. -/
def jndiPattern : Pattern Char := [endOfText] ++ text "\x7bjndi:" ++ [upTo '}'] ++ text "\x7d"

/-- `{{constructor[^}]*}}`. -/
def constructorPattern : Pattern Char :=
  text "\x7b\x7bconstructor" ++ [upTo '}'] ++ text "\x7d\x7d"

/-- The list `removals`. -/
def removals (w : WordChars) : List (Pattern Char) :=
  [scriptPattern, javascriptPattern, attributePattern w, jndiPattern, constructorPattern]

def sanitizeQuestion (w : WordChars) (question : List Char) : List Char :=
  (removals w).foldl (fun sanitized pattern => sub pattern removed sanitized) question

/-- A script element, of as many lines as it has. -/
def scriptElement : Pattern Char :=
  text "<script" ++ [upTo '>'] ++ text ">" ++ [.fewest fun _ => true] ++ text "</script>"

def jndiExpression : Pattern Char := text "$\x7bjndi:" ++ [upTo '}'] ++ text "\x7d"

def targets (w : WordChars) : List (Pattern Char) :=
  [scriptElement, javascriptPattern, attributePattern w, jndiExpression, constructorPattern]

/-- The sanitizer removes all targets, and changes nothing where there is none. -/
structure Sanitizes (w : WordChars) (question : List Char) : Prop where
  clean : ∀ p ∈ targets w, ¬ Occurs p (sanitizeQuestion w question)
  unchanged : (∀ p ∈ targets w, ¬ Occurs p question) → sanitizeQuestion w question = question

def asciiWords : WordChars where
  isAlnum := fun c => c.isAlphanum || decide (c ∈ foldedLetters)
  ascii := by
    intro c hc
    have hfolded : ∀ d ∈ foldedLetters, 128 ≤ d.toNat := of_all (by decide)
    have hnot : c ∉ foldedLetters := fun hmem => absurd (hfolded c hmem) (by omega)
    simp [hnot]
  folded := by
    intro c hc
    simp [hc]

example : sanitizeQuestion asciiWords "a<SCRIPT x>1</script>b".toList = "a[REMOVED]b".toList := by
  decide +kernel

end GroundGraph.Security
