import GroundGraph.Security.PatternReadings
import Mathlib.Data.List.TakeWhile

/-! Constructor expressions before and after the replacement of the second and the third pattern.
The name of an expression is read as that of an attribute where word characters and an equals sign
come next, and then it is no expression any more.
-/

set_option autoImplicit false

namespace GroundGraph.Security

open TextPattern AlignedTexts

def WordChars.assigned (w : WordChars) (s : List Char) : Bool :=
  decide ((s.dropWhile w.isWord).head? = some '=')

/-- The pattern of the constructor expressions, with a test behind the name. -/
def expression (test : Pattern Char) : Pattern Char :=
  text "\x7b\x7bconstructor" ++ test ++ [upTo '}'] ++ text "\x7d\x7d"

/-- A constructor expression of which the name is not read as an attribute. -/
def liveConstructor (w : WordChars) : Pattern Char := expression [.here fun s => !w.assigned s]

theorem constructorPattern_eq : constructorPattern = expression [] := by
  simp [constructorPattern, expression]

theorem assigned_iff {w : WordChars} {s : List Char} :
    w.assigned s ↔ ∃ W t, (∀ c ∈ W, w.isWord c) ∧ s = W ++ '=' :: t := by
  have heq : ¬ w.isWord '=' := by
    rw [isWord_iff (by decide)]
    decide
  unfold WordChars.assigned
  rw [decide_eq_true_iff]
  constructor
  · intro h
    obtain ⟨t, ht⟩ := List.head?_eq_some_iff.mp h
    refine ⟨s.takeWhile w.isWord, t, fun c hc => List.mem_takeWhile_imp hc, ?_⟩
    rw [← ht, List.takeWhile_append_dropWhile]
  · rintro ⟨W, t, hW, rfl⟩
    rw [List.dropWhile_append_of_pos hW, List.dropWhile_cons_of_neg heq]
    rfl

section
variable {test : Pattern Char} {ok : List Char → Bool}

def Tests (test : Pattern Char) (ok : List Char → Bool) : Prop :=
  ∀ s t, Reads test s t ↔ ok s ∧ s = t

theorem tests_nil : Tests [] fun _ => true := by
  intro s t
  simp [Reads]

theorem tests_here (ok : List Char → Bool) : Tests [.here ok] ok := by
  intro s t
  simp [Reads, Item.Reads]

theorem fits_braces {x : List Char} :
    Fits ignoringCase "\x7d\x7d".toList x ↔ x = ['}', '}'] := by
  constructor
  · intro h
    cases h with
    | @cons _ c _ x hc hx =>
      have hx' : x = ['}'] := (fits_singleton (by decide)).mp hx
      have hc' : [c] = ['}'] := (fits_singleton (by decide)).mp (.cons hc .nil)
      rw [hx', (List.cons.inj hc').1]
  · rintro rfl
    exact .cons (by decide) (.cons (by decide) .nil)

theorem reads_expression (htest : Tests test ok) {s t : List Char} :
    Reads (expression test) s t ↔ ∃ x m, Fits ignoringCase "\x7b\x7bconstructor".toList x ∧
      '}' ∉ m ∧ ok (m ++ '}' :: '}' :: t) ∧ s = x ++ (m ++ '}' :: '}' :: t) := by
  unfold expression text upTo
  rw [List.append_assoc, List.append_assoc, reads_literal_append]
  have huntil : ∀ c : Char, decide (c ≠ '}') = true ↔ c ≠ '}' := fun c => decide_eq_true_iff
  constructor
  · rintro ⟨x, u, hx, rfl, hu⟩
    obtain ⟨v, hv, hrest⟩ := reads_append.mp hu
    obtain ⟨hok, rfl⟩ := (htest _ _).mp hv
    obtain ⟨m, v, hm, rfl, hend⟩ := (reads_until huntil).mp hrest
    obtain ⟨e, he, rfl⟩ := reads_literal.mp hend
    rw [fits_braces.mp he] at hok ⊢
    exact ⟨x, m, hx, hm, hok, rfl⟩
  · rintro ⟨x, m, hx, hm, hok, rfl⟩
    refine ⟨x, _, hx, rfl, reads_append.mpr ⟨_, (htest _ _).mpr ⟨hok, rfl⟩, ?_⟩⟩
    exact (reads_until huntil).mpr ⟨m, _, hm, rfl, reads_literal.mpr ⟨_, fits_braces.mpr rfl, rfl⟩⟩

theorem matchAt_expression (htest : Tests test ok) {s t : List Char}
    (h : Reads (expression test) s t) : matchAt (expression test) s = some t := by
  refine matchAt_of_reads h ?_
  intro u hu
  obtain ⟨x, m, hx, hm, -, rfl⟩ := (reads_expression htest).mp h
  obtain ⟨x', m', hx', hm', -, heq⟩ := (reads_expression htest).mp hu
  have hlen : x.length = x'.length := hx.length_eq.symm.trans hx'.length_eq
  obtain ⟨-, hrest⟩ := first_unique hm hm' (List.append_inj heq hlen).2
  exact (List.cons.inj hrest).2.symm

theorem consumes_expression : Consumes (expression test) := by
  refine ⟨ignoringCase '\x7b', ?_⟩
  unfold expression text
  simp only [List.append_assoc]
  exact List.mem_append_left _ (List.mem_map_of_mem (by decide))

theorem removed_head : removed.head? = some '[' := by decide

theorem brace_not_removed : '\x7b' ∉ removed ∧ '}' ∉ removed := by decide

theorem matchAt_expression_none (htest : Tests test ok) {z u : List Char} (hz : z ≠ [])
    (hbrace : '\x7b' ∉ z) : matchAt (expression test) (z ++ u) = none := by
  rw [matchAt_eq_none_iff]
  intro t ht
  obtain ⟨x, m, hx, -, -, heq⟩ := (reads_expression htest).mp ht
  cases hx with
  | @cons _ d w x hd hx =>
    have hd' : d ∈ variants '\x7b' := ignoringCase_iff.mp hd
    have hvar : variants '\x7b' = ['\x7b', '\x7b'] := by decide
    have hbrace' : d = '\x7b' := by simpa [hvar] using hd'
    cases z with
    | nil => exact hz rfl
    | cons c z =>
      rw [List.cons_append] at heq
      exact hbrace (by rw [(List.cons.inj heq).1, hbrace']; exact List.mem_cons_self)

end

/-- A pattern without braces, of which nothing is read from within the name of an expression that
passes the test before the replacement. The test afterwards is passed by these and no others. -/
structure Crosses (p : Pattern Char) (ok ok' : List Char → Bool) : Prop where
  consumes : Consumes p
  braces : ∀ x s, matchAt p (x ++ s) = some s → '\x7b' ∉ x ∧ '}' ∉ x
  name : ∀ x u, Fits ignoringCase "\x7b\x7bconstructor".toList x → ok u →
    ∀ y z, x = y ++ z → z ≠ [] → matchAt p (z ++ u) = none
  after : ∀ u v, Replaced p removed u v → ok u → ok' v
  before : ∀ x u v, Fits ignoringCase "\x7b\x7bconstructor".toList x →
    (∀ y z, x = y ++ z → z ≠ [] → matchAt p (z ++ u) = none) → Replaced p removed u v → ok' v → ok u

section
variable {p test test' : Pattern Char} {ok ok' : List Char → Bool}

theorem Crosses.brace (hp : Crosses p ok ok') (x s : List Char)
    (h : matchAt p (x ++ s) = some s) : '}' ∉ x :=
  (hp.braces x s h).2

theorem Crosses.closing (hp : Crosses p ok ok') (s : List Char) : matchAt p ('}' :: s) = none := by
  cases hs : matchAt p ('}' :: s) with
  | none => rfl
  | some t =>
    have hlen := hp.consumes.length_lt (reads_of_matchAt hs)
    obtain ⟨x, hx⟩ := reads_suffix (reads_of_matchAt hs)
    cases x with
    | nil => simp [hx] at hlen
    | cons c x =>
      rw [hx] at hs
      refine absurd ?_ (hp.brace _ t hs)
      rw [(List.cons.inj hx).1]
      exact List.mem_cons_self

theorem Crosses.read_after (hp : Crosses p ok ok') (htest : Tests test ok)
    (htest' : Tests test' ok') {u v u' : List Char} (h : Replaced p removed u v)
    (hu : matchAt (expression test) u = some u') :
    ∃ v', matchAt (expression test') v = some v' ∧ Replaced p removed u' v' := by
  obtain ⟨x, m, hx, hm, hoku, rfl⟩ := (reads_expression htest).mp (reads_of_matchAt hu)
  obtain ⟨v, rfl, hrest⟩ := h.keep_word (hp.name x _ hx hoku)
  have hokv := hp.after _ _ hrest hoku
  obtain ⟨m', v, rfl, hm', hbehind⟩ := hrest.through hp.brace brace_not_removed.2 hm
  obtain ⟨v, rfl, hend⟩ := hbehind.of_none (hp.closing u')
  refine ⟨v, matchAt_expression htest' ?_, hend⟩
  exact (reads_expression htest').mpr ⟨x, m', hx, hm', hokv, rfl⟩

theorem Crosses.read_before (hp : Crosses p ok ok') (htest : Tests test ok)
    (htest' : Tests test' ok') {c : Char} {u v t : List Char} (hnone : matchAt p (c :: u) = none)
    (h : Replaced p removed u v) (hv : Reads (expression test') (c :: v) t) :
    ∃ s, Reads (expression test) (c :: u) s := by
  obtain ⟨x, m, hx, hm, hokv, heq⟩ := (reads_expression htest').mp hv
  cases x with
  | nil => cases hx
  | cons d x =>
    cases heq
    have hopen : '[' ∉ c :: x := not_mem_of_fits hx (of_all (by decide))
    obtain ⟨u, rfl, h, hread⟩ :=
      h.of_word removed_head fun hmem => hopen (List.mem_cons_of_mem c hmem)
    have hoku : ok u := by
      refine hp.before (c :: x) u _ hx ?_ h hokv
      rintro (_ | ⟨e, y⟩) z hyz hz
      · subst hyz
        exact hnone
      · cases hyz
        exact hread y z rfl hz
    obtain ⟨m', s, rfl, hm', h⟩ := h.of_through hp.brace brace_not_removed.2 hm
    obtain ⟨s, rfl, -, -⟩ := h.of_word (b := ['}']) removed_head (by decide)
    exact ⟨s, (reads_expression htest).mpr ⟨c :: x, m', hx, hm', hoku, rfl⟩⟩

theorem Crosses.aligned (hp : Crosses p ok ok') (htest : Tests test ok) (htest' : Tests test' ok')
    {u v : List Char} (h : Replaced p removed u v) :
    Aligned (fun x y => (∃ u, Reads p (x ++ u) u) ∧ y = removed)
      (sub (expression test) removed u) (sub (expression test') removed v) := by
  refine Replaced.commute consumes_expression consumes_expression ?_ ?_ ?_ ?_ h
    (sub_replaced consumes_expression u) (sub_replaced consumes_expression v)
  · exact fun u v u' => hp.read_after htest htest'
  · intro c u v hnone h hcu
    rw [matchAt_eq_none_iff]
    intro t ht
    obtain ⟨s, hs⟩ := hp.read_before htest htest' hnone h ht
    exact not_reads_of_matchAt hcu s hs
  · intro x u hx y z hyz hz
    refine matchAt_expression_none htest hz fun hmem => (hp.braces x u hx).1 ?_
    rw [hyz]
    exact List.mem_append_right y hmem
  · intro y z hyz hz u
    refine matchAt_expression_none htest' hz fun hmem => brace_not_removed.1 ?_
    rw [hyz]
    exact List.mem_append_right y hmem

end

theorem assigned_of_replaced {p : Pattern Char} {w : WordChars} {u v : List Char}
    (h : Replaced p removed u v) (hv : w.assigned v) : w.assigned u := by
  obtain ⟨W, t, hW, rfl⟩ := assigned_iff.mp hv
  have hopen : '[' ∉ W ++ ['='] := by
    intro hmem
    rcases List.mem_append.mp hmem with hmem | hmem
    · exact absurd ((isWord_iff (by decide)).mp (hW _ hmem)) (by decide)
    · exact absurd hmem (by decide)
  rw [← List.singleton_append, ← List.append_assoc] at h
  obtain ⟨s, rfl, -, -⟩ := h.of_word removed_head hopen
  exact assigned_iff.mpr ⟨W, s, hW, by simp⟩

theorem assigned_of_replaced_javascript {w : WordChars} {u v : List Char}
    (h : Replaced javascriptPattern removed u v) (hu : w.assigned u) : w.assigned v := by
  obtain ⟨W, t, hW, rfl⟩ := assigned_iff.mp hu
  rw [← List.singleton_append, ← List.append_assoc] at h
  have hnone : ∀ y z, W ++ ['='] = y ++ z → z ≠ [] → matchAt javascriptPattern (z ++ t) = none := by
    intro y z hyz hz
    rw [matchAt_eq_none_iff]
    intro r hr
    obtain ⟨x, hx, heq⟩ := reads_javascript.mp hr
    have hcolon : ':' ∈ x := mem_of_fits hx (by decide) (by decide)
    have hequals : '=' ∉ x := not_mem_of_fits hx (of_all (by decide))
    obtain ⟨z', rfl, hW'⟩ : ∃ z', z = z' ++ ['='] ∧ z' <:+ W := by
      rcases List.append_eq_append_iff.mp hyz with ⟨a, -, ha⟩ | ⟨a, rfl, rfl⟩
      · cases a with
        | nil => exact ⟨[], ha.symm, List.nil_suffix⟩
        | cons d a => simp [hz] at ha
      · exact ⟨a, rfl, List.suffix_append y a⟩
    rw [List.append_assoc] at heq
    have hmem : ':' ∈ W := hW'.subset ((prefix_of_not_mem heq hequals).subset hcolon)
    exact absurd ((isWord_iff (by decide)).mp (hW _ hmem)) (by decide)
  obtain ⟨s, rfl, -⟩ := h.keep_word hnone
  exact assigned_iff.mpr ⟨W, s, hW, by simp⟩

section
variable {w : WordChars} {u v : List Char}

theorem name_suffix_of_reads {x y z x' u t : List Char} {a b : Char}
    (hx : Fits ignoringCase "\x7b\x7bconstructor".toList x) (hyz : x = y ++ z) (hz : z ≠ [])
    (hx' : ∃ d e x'', d ∈ variants a ∧ e ∈ variants b ∧ x' = d :: e :: x'')
    (heq : z ++ u = x' ++ t) :
    ∃ n ∈ "\x7b\x7bconstructor".toList.tails, Fits ignoringCase n z ∧ mayStart a b n := by
  obtain ⟨d, e, x'', hd, he, rfl⟩ := hx'
  obtain ⟨n, hn, hfits⟩ := Fits.suffix (hyz ▸ hx)
  exact ⟨n, (List.mem_tails _ _).mpr hn, hfits,
    mayStart_of_comparable hfits hz hd he (comparable_of_append_eq heq)⟩

theorem javascript_crosses :
    Crosses javascriptPattern (fun s => !w.assigned s) fun s => !w.assigned s where
  consumes := consumes_javascript
  braces := by
    intro x s hs
    have hx := fits_of_javascript hs
    exact ⟨not_mem_of_fits hx (of_all (by decide)), not_mem_of_fits hx (of_all (by decide))⟩
  name := by
    intro x u hx _ y z hyz hz
    rw [matchAt_eq_none_iff]
    intro t ht
    obtain ⟨x', hx', heq⟩ := reads_javascript.mp ht
    have hno : ∀ n ∈ "\x7b\x7bconstructor".toList.tails, ¬ mayStart 'j' 'a' n := by decide
    obtain ⟨n, hn, -, hstart⟩ := name_suffix_of_reads hx hyz hz (two_of_fits hx') heq
    exact hno n hn hstart
  after := by
    intro u v h hu
    rw [Bool.not_eq_true', ← Bool.not_eq_true] at hu ⊢
    exact fun hv => hu (assigned_of_replaced h hv)
  before := by
    intro x u v _ _ h hv
    rw [Bool.not_eq_true', ← Bool.not_eq_true] at hv ⊢
    exact fun hu => hv (assigned_of_replaced_javascript h hu)

/-- The second pattern is not read from within the name of the expressions. -/
theorem javascript_aligned (h : Replaced javascriptPattern removed u v) :
    Aligned (fun x y => (∃ u, Reads javascriptPattern (x ++ u) u) ∧ y = removed)
      (sub (liveConstructor w) removed u) (sub (liveConstructor w) removed v) :=
  javascript_crosses.aligned (tests_here _) (tests_here _) h

theorem isWord_of_letter {c d : Char} (hc : c ∈ "structor".toList) (hd : d ∈ variants c) :
    w.isWord d := by
  have hletters : ∀ c ∈ "structor".toList, (variants c).all fun d =>
      decide (d ∈ foldedLetters ∨ d.toNat < 128 ∧ d.isAlphanum) := of_all (by decide)
  rcases of_all (hletters c hc) d hd with hfolded | ⟨hascii, halnum⟩
  · simp [WordChars.isWord, w.folded d hfolded]
  · exact (isWord_iff hascii).mpr (Or.inl halnum)

/-- What is read from within the name goes on to an equals sign behind it. -/
theorem assigned_of_reads {x y z t : List Char}
    (hx : Fits ignoringCase "\x7b\x7bconstructor".toList x) (hyz : x = y ++ z) (hz : z ≠ [])
    (h : Reads (attributePattern w) (z ++ u) t) : w.assigned u := by
  obtain ⟨x', c, W, hx', hW, heq⟩ := reads_attribute.mp h
  have hname : ∀ n ∈ "\x7b\x7bconstructor".toList.tails, mayStart 'o' 'n' n →
      n = "on".toList ++ "structor".toList := by decide
  obtain ⟨n, hn, hfits, hstart⟩ := name_suffix_of_reads hx hyz hz (two_of_fits hx') heq
  rw [hname n hn hstart] at hfits
  obtain ⟨z₁, z₂, rfl, hz₁, hz₂⟩ := Fits.append_left hfits
  have hlen : z₁.length = x'.length := hz₁.length_eq.symm.trans hx'.length_eq
  rw [List.append_assoc] at heq
  have hrest : (c :: W) ++ '=' :: t = z₂ ++ u := (List.append_inj heq hlen).2.symm
  have hequals : '=' ∉ z₂ := not_mem_of_fits hz₂ (of_all (by decide))
  obtain ⟨a, ha⟩ := prefix_of_not_mem hrest hequals
  rw [← ha, List.append_assoc] at hrest
  refine assigned_iff.mpr ⟨a, t, ?_, (List.append_cancel_left hrest).symm⟩
  intro d hd
  exact hW d (ha ▸ List.mem_append_right z₂ hd)

/-- The rest of the name and an assignment behind it are read as an attribute. -/
theorem not_assigned_of_name {x : List Char}
    (hx : Fits ignoringCase "\x7b\x7bconstructor".toList x)
    (hnone : ∀ y z, x = y ++ z → z ≠ [] → matchAt (attributePattern w) (z ++ u) = none) :
    ¬ w.assigned u := by
  intro hu
  obtain ⟨W, t, hW, rfl⟩ := assigned_iff.mp hu
  have hsplit : Fits ignoringCase ("\x7b\x7bc".toList ++ ("on".toList ++ "structor".toList)) x := hx
  obtain ⟨y, z, rfl, -, hz⟩ := Fits.append_left hsplit
  obtain ⟨z₁, z₂, rfl, hz₁, hz₂⟩ := Fits.append_left hz
  have hword : ∀ d ∈ z₂, w.isWord d := by
    intro d hd
    obtain ⟨c, hc, hdc⟩ := exists_of_fits hz₂ hd
    exact isWord_of_letter hc hdc
  obtain ⟨c, z₂, rfl⟩ := List.exists_cons_of_ne_nil (l := z₂) (by rintro rfl; cases hz₂)
  refine not_reads_of_matchAt (hnone y (z₁ ++ c :: z₂) rfl (by simp)) t ?_
  refine reads_attribute.mpr ⟨z₁, c, z₂ ++ W, hz₁, ?_, by simp⟩
  intro d hd
  rcases List.mem_append.mp (List.cons_append ▸ hd) with hd | hd
  · exact hword d hd
  · exact hW d hd

theorem attribute_crosses :
    Crosses (attributePattern w) (fun s => !w.assigned s) fun _ => true where
  consumes := consumes_attribute
  braces := by
    intro x s hs
    have hx := reads_of_matchAt hs
    exact ⟨not_mem_of_attribute hx (by decide) (by decide) (by decide),
      not_mem_of_attribute hx (by decide) (by decide) (by decide)⟩
  name := by
    intro x u hx hu y z hyz hz
    rw [matchAt_eq_none_iff]
    intro t ht
    rw [assigned_of_reads hx hyz hz ht] at hu
    cases hu
  after := fun _ _ _ _ => rfl
  before := by
    intro x u v hx hnone _ _
    rw [Bool.not_eq_true', ← Bool.not_eq_true]
    exact not_assigned_of_name hx hnone

/-- The third pattern is read from within the name of an expression if the rest of the name is
part of the name of an attribute. -/
theorem attribute_aligned (h : Replaced (attributePattern w) removed u v) :
    Aligned (fun x y => (∃ u, Reads (attributePattern w) (x ++ u) u) ∧ y = removed)
      (sub (liveConstructor w) removed u) (sub constructorPattern removed v) := by
  rw [constructorPattern_eq]
  exact attribute_crosses.aligned (tests_here _) tests_nil h

end

end GroundGraph.Security
