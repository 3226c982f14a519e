import GroundGraph.Security.ConstructorExpressions

/-! What `sanitize_question` removes. The dot of the first pattern stops at a newline and the
dollar of the fourth is not escaped, so script elements of several lines and all JNDI expressions
stay, unless they are in something else that is removed.
-/

set_option autoImplicit false

namespace GroundGraph.Security

open TextPattern AlignedTexts

def tokens : List (List Char) :=
  ["<script".toList, ">".toList, "</script>".toList, "$\x7bjndi:".toList, "\x7d".toList]

/-- The words of a script element, and those of a JNDI expression. -/
def scriptWords : List (List Char → Prop) :=
  [Fits ignoringCase "<script".toList, Fits ignoringCase ">".toList,
    Fits ignoringCase "</script>".toList]

def jndiWords : List (List Char → Prop) :=
  [Fits ignoringCase "$\x7bjndi:".toList, Fits ignoringCase "\x7d".toList]

theorem upTo_iff {e : Char} (c : Char) : decide (c ≠ e) = true ↔ c ≠ e := decide_eq_true_iff

theorem occurs_scriptElement {s : List Char} : Occurs scriptElement s ↔ InOrder scriptWords s := by
  unfold scriptElement text upTo
  simp only [List.append_assoc, List.cons_append, List.nil_append]
  refine occurs_iff_inOrder upTo_iff (fun x => fits_singleton (by decide)) ?_
  intro v
  constructor
  · rintro ⟨t, u, ⟨a, -, rfl⟩, hu⟩
    obtain ⟨x, hx, rfl⟩ := reads_literal.mp hu
    exact ⟨a, x, t, rfl, hx, trivial⟩
  · rintro ⟨a, x, t, rfl, hx, -⟩
    exact ⟨t, x ++ t, ⟨a, fun _ _ => rfl, rfl⟩, reads_literal.mpr ⟨x, hx, rfl⟩⟩

theorem occurs_jndiExpression {s : List Char} :
    Occurs jndiExpression s ↔ InOrder jndiWords s := by
  have hend : ∀ v : List Char, (∃ t, Reads ([] : Pattern Char) v t) ↔ InOrder [] v :=
    fun v => ⟨fun _ => trivial, fun _ => ⟨v, rfl⟩⟩
  have hiff := occurs_iff_inOrder (w := "$\x7bjndi:".toList) (s := s) upTo_iff
    (fun x => fits_singleton (c := '}') (by decide)) hend
  rw [List.append_nil] at hiff
  unfold jndiExpression text upTo
  simp only [List.append_assoc, List.cons_append, List.nil_append]
  exact hiff

theorem fits_self {l : List Char} (h : l.all fun c => decide (ignoringCase c c)) :
    Fits ignoringCase l l :=
  List.forall₂_same.mpr (of_all h)

theorem removed_fits : Fits ignoringCase removed removed := fits_self (by decide)

theorem script_tokens : ∀ l ∈ ["<script".toList, ">".toList, "</script>".toList], l ∈ tokens := by
  decide

theorem jndi_tokens : ∀ l ∈ ["$\x7bjndi:".toList, "\x7d".toList], l ∈ tokens := by
  decide

/-- The first characters of the words are in nothing that is replaced, and nothing that is replaced
starts in the rest of the words. -/
theorem token_apart {l b x : List Char} {a a' : Char} (hl : l ∈ tokens) (hb : Fits ignoringCase l b)
    (hhead : ∀ c ∈ ['<', '>', '$', '}'], c ∉ x)
    (hx : ∃ d e x', d ∈ variants a ∧ e ∈ variants a' ∧ x = d :: e :: x')
    (hstart : ∀ l ∈ tokens, ∀ n ∈ l.tail.tails, ¬ mayStart a a' n) : Apart b x := by
  have hheads : ∀ l ∈ tokens, l.head?.all fun c =>
      decide (c ∈ ['<', '>', '$', '}'] ∧ variants c = [c, c]) := by
    decide
  cases l with
  | nil => exact absurd hl (by decide)
  | cons c w =>
    obtain ⟨hc, hvar⟩ := of_decide_eq_true (hheads _ hl)
    refine apart_of_fits hb ?_ hx (hstart _ hl)
    intro d hd hmem
    rw [hvar] at hmem
    simp at hmem
    exact hhead c hc (hmem ▸ hd)

theorem token_apart_removed {l b : List Char} (hl : l ∈ tokens) (hb : Fits ignoringCase l b) :
    Apart b removed :=
  token_apart hl hb (of_all (by decide)) (two_of_fits removed_fits) (by decide)

theorem token_apart_javascript {l b x u : List Char} (hl : l ∈ tokens)
    (hb : Fits ignoringCase l b) (hx : Reads javascriptPattern (x ++ u) u) : Apart b x := by
  obtain ⟨x', hx', heq⟩ := reads_javascript.mp hx
  obtain rfl := List.append_cancel_right heq
  have hhead : ∀ c ∈ ['<', '>', '$', '}'],
      "javascript:".toList.all fun e => decide (c ∉ variants e) := of_all (by decide)
  exact token_apart hl hb (fun c hc => not_mem_of_fits hx' (of_all (hhead c hc)))
    (two_of_fits hx') (by decide)

theorem token_apart_attribute {w : WordChars} {l b x u : List Char} (hl : l ∈ tokens)
    (hb : Fits ignoringCase l b) (hx : Reads (attributePattern w) (x ++ u) u) : Apart b x := by
  have hhead : ∀ c ∈ ['<', '>', '$', '}'],
      c.toNat < 128 ∧ ¬ (c.isAlphanum ∨ c = '_') ∧ c ≠ '=' := of_all (by decide)
  have hnot : ∀ c ∈ ['<', '>', '$', '}'], c ∉ x := fun c hc =>
    not_mem_of_attribute hx (hhead c hc).1 (hhead c hc).2.1 (hhead c hc).2.2
  obtain ⟨y, c, W, hy, -, rfl⟩ := word_of_attribute hx
  obtain ⟨d, e, y', hd, he, rfl⟩ := two_of_fits hy
  exact token_apart hl hb hnot ⟨d, e, _, hd, he, rfl⟩ (by decide)

theorem ne_nil_of_token {l b : List Char} (hl : l ∈ tokens) (hb : Fits ignoringCase l b) :
    b ≠ [] := by
  have hne : ∀ l ∈ tokens, l ≠ [] := by decide
  rintro rfl
  exact hne l hl (List.forall₂_nil_right_iff.mp hb)

theorem inOrder_of_replaced {p : Pattern Char} {s t : List Char} {ls : List (List Char)}
    (hls : ∀ l ∈ ls, l ∈ tokens) (h : Replaced p removed s t)
    (ht : InOrder (ls.map (Fits ignoringCase)) t) : InOrder (ls.map (Fits ignoringCase)) s := by
  refine h.aligned.symm.inOrder ?_ ht
  intro f hf b hb
  obtain ⟨l, hl, rfl⟩ := List.mem_map.mp hf
  refine ⟨ne_nil_of_token (hls l hl) hb, ?_⟩
  rintro _ y ⟨-, rfl⟩
  exact token_apart_removed (hls l hl) hb

section
variable {w : WordChars}

theorem inOrder_constructor_iff {s : List Char} {ls : List (List Char)}
    (hls : ∀ l ∈ ls, l ∈ tokens) :
    InOrder (ls.map (Fits ignoringCase)) (sub constructorPattern removed
        (sub (attributePattern w) removed (sub javascriptPattern removed s))) ↔
      InOrder (ls.map (Fits ignoringCase)) (sub (liveConstructor w) removed s) := by
  have hfirst : InOrder (ls.map (Fits ignoringCase)) _ ↔ InOrder (ls.map (Fits ignoringCase)) _ :=
    (javascript_aligned (w := w) (sub_replaced consumes_javascript s)).inOrder_iff (by
      intro f hf b hb
      obtain ⟨l, hl, rfl⟩ := List.mem_map.mp hf
      refine ⟨ne_nil_of_token (hls l hl) hb, ?_⟩
      rintro x _ ⟨⟨u, hx⟩, rfl⟩
      exact ⟨token_apart_javascript (hls l hl) hb hx, token_apart_removed (hls l hl) hb⟩)
  have hsecond : InOrder (ls.map (Fits ignoringCase)) _ ↔ InOrder (ls.map (Fits ignoringCase)) _ :=
    (attribute_aligned (sub_replaced (consumes_attribute (w := w))
      (sub javascriptPattern removed s))).inOrder_iff (by
      intro f hf b hb
      obtain ⟨l, hl, rfl⟩ := List.mem_map.mp hf
      refine ⟨ne_nil_of_token (hls l hl) hb, ?_⟩
      rintro x _ ⟨⟨u, hx⟩, rfl⟩
      exact ⟨token_apart_attribute (hls l hl) hb hx, token_apart_removed (hls l hl) hb⟩)
  exact (hfirst.trans hsecond).symm

end

theorem mayStart_of_removed {a a' : Char} {y z u x t : List Char} (hyz : removed = y ++ z)
    (hz : z ≠ []) (hx : ∃ d e x', d ∈ variants a ∧ e ∈ variants a' ∧ x = d :: e :: x')
    (heq : z ++ u = x ++ t) : ∃ n ∈ removed.tails, mayStart a a' n := by
  obtain ⟨d, e, x', hd, he, rfl⟩ := hx
  have hself : Fits ignoringCase removed (y ++ z) := by
    rw [← hyz]
    exact removed_fits
  obtain ⟨n, hn, hfits⟩ := Fits.suffix hself
  exact ⟨n, (List.mem_tails _ _).mpr hn,
    mayStart_of_comparable hfits hz hd he (comparable_of_append_eq heq)⟩

section
variable {w : WordChars} {p : Pattern Char} {s t : List Char}

theorem javascript_not_removed (y z : List Char) (hyz : removed = y ++ z) (hz : z ≠ [])
    (u : List Char) : matchAt javascriptPattern (z ++ u) = none := by
  rw [matchAt_eq_none_iff]
  intro t ht
  obtain ⟨x, hx, heq⟩ := reads_javascript.mp ht
  have hno : ∀ n ∈ removed.tails, ¬ mayStart 'j' 'a' n := by decide
  obtain ⟨n, hn, hstart⟩ := mayStart_of_removed hyz hz (two_of_fits hx) heq
  exact hno n hn hstart

theorem attribute_not_removed (y z : List Char) (hyz : removed = y ++ z) (hz : z ≠ [])
    (u : List Char) : matchAt (attributePattern w) (z ++ u) = none := by
  rw [matchAt_eq_none_iff]
  intro t ht
  obtain ⟨x, c, W, hx, -, heq⟩ := reads_attribute.mp ht
  have hno : ∀ n ∈ removed.tails, ¬ mayStart 'o' 'n' n := by decide
  obtain ⟨n, hn, hstart⟩ := mayStart_of_removed hyz hz (two_of_fits hx) heq
  exact hno n hn hstart

theorem word_javascript (b : List Char) (hb : Word javascriptPattern b) : b ≠ [] ∧ '[' ∉ b := by
  obtain ⟨x, hx, heq⟩ := reads_javascript.mp hb
  rw [List.append_nil] at heq
  subst heq
  refine ⟨?_, not_mem_of_fits hx (of_all (by decide))⟩
  rintro rfl
  cases hx

theorem word_attribute (b : List Char) (hb : Word (attributePattern w) b) : b ≠ [] ∧ '[' ∉ b := by
  have hb' : Reads (attributePattern w) (b ++ []) [] := by rwa [List.append_nil]
  refine ⟨?_, not_mem_of_attribute hb' (by decide) (by decide) (by decide)⟩
  rintro rfl
  exact absurd (consumes_attribute.length_lt hb) (Nat.not_lt_zero _)

theorem plain_javascript : Plain javascriptPattern := plain_literal _ _

theorem plain_attribute : Plain (attributePattern w) := by
  have hword : Plain [.one w.isWord, .many w.isWord] := by simp [Plain]
  exact plain_append (plain_append (plain_literal _ _) hword) (plain_literal _ _)

theorem not_occurs_javascript (h : Replaced p removed s t) (hs : ¬ Occurs javascriptPattern s) :
    ¬ Occurs javascriptPattern t :=
  h.not_occurs_other removed_head plain_javascript word_javascript javascript_not_removed hs

theorem not_occurs_attribute (h : Replaced p removed s t) (hs : ¬ Occurs (attributePattern w) s) :
    ¬ Occurs (attributePattern w) t :=
  h.not_occurs_other removed_head plain_attribute word_attribute attribute_not_removed hs

theorem closed_of_replaced {m r : List Char}
    (h : Replaced (expression []) removed s (m ++ '}' :: '}' :: r)) (hm : '}' ∉ m) :
    ∃ m' r', '}' ∉ m' ∧ s = m' ++ '}' :: '}' :: r' := by
  generalize ht : m ++ '}' :: '}' :: r = t at h
  induction h generalizing m with
  | nil => simp at ht
  | @keep c s t _ h ih =>
    cases m with
    | nil =>
      cases ht
      obtain ⟨s, rfl, -, -⟩ := h.of_word (b := ['}']) removed_head (by decide)
      exact ⟨[], s, by simp, rfl⟩
    | cons d m =>
      cases ht
      rw [List.mem_cons, not_or] at hm
      obtain ⟨m', r', hm', rfl⟩ := ih hm.2 rfl
      exact ⟨c :: m', r', by simp [hm.1, hm'], rfl⟩
  | @cut x s t hsome _ _ _ =>
    obtain ⟨y, m', hy, hm', -, heq⟩ := (reads_expression tests_nil).mp (reads_of_matchAt hsome)
    have hbrace : '}' ∉ y := not_mem_of_fits hy (of_all (by decide))
    refine ⟨y ++ m', s, ?_, by rw [heq, List.append_assoc]⟩
    rw [List.mem_append, not_or]
    exact ⟨hbrace, hm'⟩

theorem not_occurs_constructor (h : Replaced constructorPattern removed s t) :
    ¬ Occurs constructorPattern t := by
  rw [constructorPattern_eq] at h ⊢
  rintro ⟨a, b, r, hab, hb⟩
  obtain ⟨x, m, hx, hm, -, rfl⟩ := (reads_expression tests_nil).mp hb
  induction h generalizing a with
  | nil =>
    cases hx
    simp at hab
  | @keep c s t hnone h ih =>
    cases a with
    | cons d a =>
      cases hab
      exact ih a rfl
    | nil =>
      cases x with
      | nil => cases hx
      | cons d x =>
        cases hab
        have hopen : '[' ∉ c :: x := not_mem_of_fits hx (of_all (by decide))
        obtain ⟨s, rfl, h, -⟩ :=
          h.of_word removed_head fun hmem => hopen (List.mem_cons_of_mem c hmem)
        obtain ⟨m', r', hm', rfl⟩ := closed_of_replaced h hm
        exact not_reads_of_matchAt hnone r'
          ((reads_expression tests_nil).mpr ⟨c :: x, m', hx, hm', rfl, rfl⟩)
  | @cut x' s t _ _ h ih =>
    rcases List.append_eq_append_iff.mp hab with ⟨a', rfl, ht⟩ | ⟨z, hz, heq⟩
    · exact ih a' ht
    · rcases eq_or_ne z [] with rfl | hne
      · exact ih [] heq.symm
      · have hnone : matchAt (expression []) (z ++ t) = none := by
          refine matchAt_expression_none tests_nil hne fun hmem => brace_not_removed.1 ?_
          rw [hz]
          exact List.mem_append_right a hmem
        rw [heq] at hb
        exact not_reads_of_matchAt hnone r hb

end

theorem consumes_script : Consumes scriptPattern := by
  refine ⟨ignoringCase '<', ?_⟩
  unfold scriptPattern text
  simp only [List.append_assoc]
  exact List.mem_append_left _ (List.mem_map_of_mem (by decide))

theorem consumes_jndi : Consumes jndiPattern := by
  refine ⟨ignoringCase '\x7b', ?_⟩
  unfold jndiPattern text
  simp only [List.append_assoc, List.cons_append, List.nil_append]
  exact List.mem_cons_of_mem _ (List.mem_append_left _ (List.mem_map_of_mem (by decide)))

theorem consumes_constructor : Consumes constructorPattern := by
  rw [constructorPattern_eq]
  exact consumes_expression

theorem sub_of_not_occurs {p : Pattern Char} (hp : Consumes p) {s : List Char}
    (hs : ¬ Occurs p s) : sub p removed s = s :=
  (sub_replaced hp s).eq_of_not_occurs hs

theorem sub_jndi (s : List Char) : sub jndiPattern removed s = s := by
  refine sub_of_not_occurs consumes_jndi ?_
  rintro ⟨a, b, t, -, hb⟩
  exact not_reads_of_matchAt (matchAt_jndiPattern b) t hb

theorem sanitizeQuestion_eq (w : WordChars) (question : List Char) :
    sanitizeQuestion w question = sub constructorPattern removed (sub (attributePattern w) removed
      (sub javascriptPattern removed (sub scriptPattern removed question))) := by
  simp only [sanitizeQuestion, removals, List.foldl_cons, List.foldl_nil, sub_jndi]

theorem not_occurs_script {s : List Char} (h : ¬ Occurs scriptElement s) :
    ¬ Occurs scriptPattern s := by
  rintro ⟨a, b, t, rfl, hb⟩
  refine h ⟨a, b, t, rfl, ?_⟩
  unfold scriptPattern at hb
  unfold scriptElement
  obtain ⟨u, hbu, hut⟩ := reads_append.mp hb
  obtain ⟨v, hbv, u', ⟨x, -, rfl⟩, rfl⟩ := reads_append.mp hbu
  exact reads_append.mpr ⟨_, reads_append.mpr ⟨_, hbv, _, ⟨x, fun _ _ => rfl, rfl⟩, rfl⟩, hut⟩

/-- The question with its script elements on one line masked, and then the live constructor
expressions of what that leaves. -/
def Outside (w : WordChars) (question v : List Char) : Prop :=
  ∃ u, Replaced scriptPattern removed question u ∧ Replaced (liveConstructor w) removed u v

section
variable {w : WordChars} {question v : List Char}

theorem outside_iff : Outside w question v ↔
    v = sub (liveConstructor w) removed (sub scriptPattern removed question) := by
  constructor
  · rintro ⟨u, hu, hv⟩
    rw [← hu.eq_sub consumes_script]
    exact hv.eq_sub consumes_expression
  · rintro rfl
    exact ⟨_, sub_replaced consumes_script question, sub_replaced consumes_expression _⟩

theorem scriptElement_left (h : Outside w question v) :
    Occurs scriptElement (sanitizeQuestion w question) ↔ Occurs scriptElement v := by
  rw [outside_iff.mp h, sanitizeQuestion_eq, occurs_scriptElement, occurs_scriptElement]
  exact inOrder_constructor_iff script_tokens

theorem jndiExpression_left (h : Outside w question v) :
    Occurs jndiExpression (sanitizeQuestion w question) ↔ Occurs jndiExpression v := by
  rw [outside_iff.mp h, sanitizeQuestion_eq, occurs_jndiExpression, occurs_jndiExpression]
  exact inOrder_constructor_iff jndi_tokens

theorem javascript_never_left : ¬ Occurs javascriptPattern (sanitizeQuestion w question) := by
  rw [sanitizeQuestion_eq]
  refine not_occurs_javascript (sub_replaced consumes_constructor _) ?_
  refine not_occurs_javascript (sub_replaced consumes_attribute _) ?_
  exact (sub_replaced consumes_javascript _).not_occurs removed_head plain_javascript
    word_javascript javascript_not_removed

theorem attribute_never_left : ¬ Occurs (attributePattern w) (sanitizeQuestion w question) := by
  rw [sanitizeQuestion_eq]
  refine not_occurs_attribute (sub_replaced consumes_constructor _) ?_
  exact (sub_replaced consumes_attribute _).not_occurs removed_head plain_attribute word_attribute
    attribute_not_removed

theorem constructor_never_left : ¬ Occurs constructorPattern (sanitizeQuestion w question) := by
  rw [sanitizeQuestion_eq]
  exact not_occurs_constructor (sub_replaced consumes_constructor _)

theorem unchanged_of_not_occurs (h : ∀ p ∈ targets w, ¬ Occurs p question) :
    sanitizeQuestion w question = question := by
  simp only [targets, List.forall_mem_cons] at h
  obtain ⟨hscript, hjavascript, hattribute, -, hconstructor, -⟩ := h
  rw [sanitizeQuestion_eq, sub_of_not_occurs consumes_script (not_occurs_script hscript),
    sub_of_not_occurs consumes_javascript hjavascript,
    sub_of_not_occurs consumes_attribute hattribute,
    sub_of_not_occurs consumes_constructor hconstructor]

end

theorem sanitizes_of_outside {w : WordChars} {question v : List Char} (hv : Outside w question v)
    (hscript : ¬ Occurs scriptElement v) (hjndi : ¬ Occurs jndiExpression v) :
    Sanitizes w question := by
  rw [← scriptElement_left hv] at hscript
  rw [← jndiExpression_left hv] at hjndi
  refine ⟨?_, unchanged_of_not_occurs⟩
  simp only [targets, List.forall_mem_cons]
  exact ⟨hscript, javascript_never_left, attribute_never_left, hjndi, constructor_never_left,
    by simp⟩

/-- A script element is left if and only if there is one outside of the elements on one line and
the live constructor expressions, and so is a JNDI expression; nothing else is ever left. -/
theorem sanitizes_iff (w : WordChars) (question : List Char) :
    Sanitizes w question ↔
      ∀ v, Outside w question v → ¬ Occurs scriptElement v ∧ ¬ Occurs jndiExpression v := by
  constructor
  · intro h v hv
    rw [← scriptElement_left hv, ← jndiExpression_left hv]
    exact ⟨h.clean _ (by simp [targets]), h.clean _ (by simp [targets])⟩
  · intro h
    obtain ⟨hscript, hjndi⟩ := h _ (outside_iff.mpr rfl)
    exact sanitizes_of_outside (outside_iff.mpr rfl) hscript hjndi

/-- A JNDI expression is left as it is. -/
theorem not_sanitizes_jndi : ¬ Sanitizes asciiWords "$\x7bjndi:x\x7d".toList := by
  intro h
  have hsame : sanitizeQuestion asciiWords "$\x7bjndi:x\x7d".toList =
      "$\x7bjndi:x\x7d".toList := by
    decide +kernel
  refine h.clean jndiExpression (by simp [targets]) ?_
  rw [hsame, occurs_jndiExpression]
  exact ⟨[], "$\x7bjndi:".toList, "x\x7d".toList, by decide, fits_self (by decide),
    "x".toList, "\x7d".toList, [], by decide, fits_self (by decide), trivial⟩

/-- So is a script element of two lines. -/
example : sanitizeQuestion asciiWords "<script>\n</script>".toList =
    "<script>\n</script>".toList := by
  decide +kernel

theorem reads_script_of_inOrder {b s : List Char} (hb : Fits ignoringCase "<script".toList b)
    (hs : InOrder [Fits ignoringCase ">".toList, Fits ignoringCase "</script>".toList] s)
    (hline : '\n' ∉ s) : ∃ t, Reads scriptPattern (b ++ s) t := by
  obtain ⟨a, y, _, rfl, hy, a', x, t, rfl, hx, -⟩ := hs
  obtain rfl := (fits_singleton (c := '>') (by decide)).mp hy
  obtain ⟨m, z, hm, heq⟩ := exists_first (e := '>') a (a' ++ (x ++ t))
  rw [List.singleton_append, heq] at hline ⊢
  refine ⟨t, ?_⟩
  unfold scriptPattern text upTo
  simp only [List.append_assoc, List.cons_append, List.nil_append]
  refine reads_literal_append.mpr ⟨b, _, hb, rfl, (reads_until upTo_iff).mpr ⟨m, _, hm, rfl, ?_⟩⟩
  refine reads_literal_append.mpr ⟨['>'], _, hy, rfl, x ++ t, ⟨z ++ a', ?_, by simp⟩, ?_⟩
  · intro c hc
    refine decide_eq_true fun hnew => hline ?_
    simp only [List.mem_append, List.mem_cons] at hc ⊢
    rw [← hnew]
    tauto
  · exact reads_literal.mpr ⟨x, hx, rfl⟩

theorem not_inOrder_of_one_line {s t : List Char} (h : Replaced scriptPattern removed s t)
    (hline : '\n' ∉ s) : ¬ InOrder scriptWords t := by
  have htoken : "<script".toList ∈ tokens := script_tokens _ List.mem_cons_self
  induction h with
  | nil =>
    rintro ⟨a, b, c, habc, hb, -⟩
    simp only [List.nil_eq, List.append_eq_nil_iff] at habc
    exact ne_nil_of_token htoken hb habc.2.1
  | @keep d s t hnone h ih =>
    rintro ⟨a, b, c, habc, hb, hc⟩
    cases a with
    | cons d' a =>
      cases habc
      exact ih (fun hmem => hline (List.mem_cons_of_mem d hmem)) ⟨a, b, c, rfl, hb, hc⟩
    | nil =>
      cases b with
      | nil => exact ne_nil_of_token htoken hb rfl
      | cons d' b =>
        cases habc
        have hopen : '[' ∉ d :: b := not_mem_of_fits hb (of_all (by decide))
        obtain ⟨s, rfl, h, -⟩ :=
          h.of_word removed_head fun hmem => hopen (List.mem_cons_of_mem d hmem)
        have hs := inOrder_of_replaced
          (fun l hl => script_tokens l (List.mem_cons_of_mem _ hl)) h hc
        obtain ⟨r, hr⟩ := reads_script_of_inOrder hb hs fun hmem => hline (by simp [hmem])
        exact not_reads_of_matchAt hnone r hr
  | @cut x s t _ _ h ih =>
    rintro ⟨a, b, c, habc, hb, hc⟩
    have hlater : ∀ a', t ≠ a' ++ (b ++ c) := fun a' ht =>
      ih (fun hmem => hline (List.mem_append_right x hmem)) ⟨a', b, c, ht, hb, hc⟩
    rcases List.append_eq_append_iff.mp habc with ⟨a', -, ht⟩ | ⟨z, hz, hbc⟩
    · exact hlater a' ht
    · rcases eq_or_ne z [] with rfl | hne
      · exact hlater [] hbc.symm
      · exact (token_apart_removed htoken hb).inside a z hz hne (comparable_of_append_eq hbc)

theorem sanitizes_of_one_line {w : WordChars} {question : List Char} (hline : '\n' ∉ question)
    (hjndi : ¬ Occurs jndiExpression question) : Sanitizes w question := by
  have hscript : Replaced scriptPattern removed question (sub scriptPattern removed question) :=
    sub_replaced consumes_script question
  have hlive : Replaced (liveConstructor w) removed _
      (sub (liveConstructor w) removed (sub scriptPattern removed question)) :=
    sub_replaced consumes_expression (sub scriptPattern removed question)
  refine sanitizes_of_outside ⟨_, hscript, hlive⟩ ?_ ?_
  · rw [occurs_scriptElement]
    exact fun h => not_inOrder_of_one_line hscript hline
      (inOrder_of_replaced script_tokens hlive h)
  · rw [occurs_jndiExpression] at hjndi ⊢
    exact fun h => hjndi (inOrder_of_replaced jndi_tokens hscript
      (inOrder_of_replaced jndi_tokens hlive h))

end GroundGraph.Security
