import GroundGraph.Security.PromptInjection
import Mathlib.Data.List.Forall2

/-! What the patterns of `sanitize_question` are read from, ignoring case. -/

set_option autoImplicit false

namespace GroundGraph.Security

open TextPattern AlignedTexts

theorem ignoringCase_iff {c d : Char} : ignoringCase c d ↔ d ∈ variants c := decide_eq_true_iff

theorem exists_of_fits {w x : List Char} {d : Char} (h : Fits ignoringCase w x) (hd : d ∈ x) :
    ∃ c ∈ w, d ∈ variants c := by
  induction h with
  | nil => simp at hd
  | @cons c e w x hce _ ih =>
    rcases List.mem_cons.mp hd with rfl | hd
    · exact ⟨c, List.mem_cons_self, ignoringCase_iff.mp hce⟩
    · obtain ⟨c', hc', hd'⟩ := ih hd
      exact ⟨c', List.mem_cons_of_mem c hc', hd'⟩

theorem not_mem_of_fits {w x : List Char} {d : Char} (h : Fits ignoringCase w x)
    (hd : ∀ c ∈ w, d ∉ variants c) : d ∉ x := by
  intro hmem
  obtain ⟨c, hc, hd'⟩ := exists_of_fits h hmem
  exact hd c hc hd'

theorem mem_of_fits {w x : List Char} {c : Char} (h : Fits ignoringCase w x) (hc : c ∈ w)
    (hvar : variants c = [c, c]) : c ∈ x := by
  induction h with
  | nil => simp at hc
  | @cons e d w x hed _ ih =>
    rcases List.mem_cons.mp hc with rfl | hc
    · have hd : d ∈ variants c := ignoringCase_iff.mp hed
      rw [hvar] at hd
      simp at hd
      simp [hd]
    · exact List.mem_cons_of_mem d (ih hc)

theorem fits_singleton {x : List Char} {c : Char} (hvar : variants c = [c, c]) :
    Fits ignoringCase [c] x ↔ x = [c] := by
  constructor
  · intro h
    cases h with
    | @cons _ d _ x hd hx =>
      cases hx
      have hmem : d ∈ variants c := ignoringCase_iff.mp hd
      rw [hvar] at hmem
      simp at hmem
      rw [hmem]
  · rintro rfl
    refine .cons (ignoringCase_iff.mpr ?_) .nil
    rw [hvar]
    simp

def disjoint (c a : Char) : Bool := (variants c).all fun d => decide (d ∉ variants a)

theorem disjoint_iff {c a : Char} : disjoint c a ↔ ∀ d ∈ variants c, d ∉ variants a := by
  simp [disjoint]

/-- A text that fits these characters may go on as one that fits `a`, `b` and more. -/
def mayStart (a b : Char) : List Char → Bool
  | [] => false
  | [c] => !disjoint c a
  | c :: d :: _ => !disjoint c a && !disjoint d b

theorem head_eq_of_comparable {c d : Char} {s t : List Char} (h : Comparable (c :: s) (d :: t)) :
    c = d ∧ Comparable s t := by
  rcases h with h | h
  · obtain ⟨hcd, hst⟩ := List.cons_prefix_cons.mp h
    exact ⟨hcd, Or.inl hst⟩
  · obtain ⟨hdc, hts⟩ := List.cons_prefix_cons.mp h
    exact ⟨hdc.symm, Or.inr hts⟩

theorem mayStart_of_comparable {n z x : List Char} {a b d e : Char} (hz : Fits ignoringCase n z)
    (hne : z ≠ []) (hd : d ∈ variants a) (he : e ∈ variants b)
    (hcomp : Comparable z (d :: e :: x)) : mayStart a b n := by
  have hmeet : ∀ {c a f : Char}, ignoringCase c f → f ∈ variants a → disjoint c a = false := by
    intro c a f hcf hfa
    rw [← Bool.not_eq_true, disjoint_iff]
    exact fun h => h f (ignoringCase_iff.mp hcf) hfa
  cases hz with
  | nil => exact absurd rfl hne
  | @cons c f n z hcf hz =>
    obtain ⟨rfl, hrest⟩ := head_eq_of_comparable hcomp
    cases hz with
    | nil => simp [mayStart, hmeet hcf hd]
    | @cons c' f' n z hcf' hz =>
      obtain ⟨rfl, -⟩ := head_eq_of_comparable hrest
      simp [mayStart, hmeet hcf hd, hmeet hcf' he]

theorem apart_of_fits {c : Char} {w b x : List Char} {a a' : Char}
    (hb : Fits ignoringCase (c :: w) b) (hhead : ∀ d ∈ x, d ∉ variants c)
    (hx : ∃ d e x', d ∈ variants a ∧ e ∈ variants a' ∧ x = d :: e :: x')
    (hw : ∀ n ∈ w.tails, ¬ mayStart a a' n) : Apart b x := by
  cases hb with
  | @cons _ f _ b hf hb =>
    refine ⟨?_, ?_⟩
    · rintro y (_ | ⟨g, z⟩) rfl hz hcomp
      · exact hz rfl
      · obtain ⟨rfl, -⟩ := head_eq_of_comparable hcomp
        exact hhead f (by simp) (ignoringCase_iff.mp hf)
    · rintro (_ | ⟨g, y⟩) z hyz hy hz
      · exact absurd rfl hy
      · cases hyz
        obtain ⟨d, e, x', hd, he, rfl⟩ := hx
        obtain ⟨n, hn, hfits⟩ := Fits.suffix hb
        exact fun hcomp => hw n ((List.mem_tails _ _).mpr hn)
          (mayStart_of_comparable hfits hz hd he hcomp)

theorem reads_javascript {s t : List Char} :
    Reads javascriptPattern s t ↔ ∃ x, Fits ignoringCase "javascript:".toList x ∧ s = x ++ t :=
  reads_literal

theorem reads_attribute {w : WordChars} {s t : List Char} :
    Reads (attributePattern w) s t ↔ ∃ x c W, Fits ignoringCase "on".toList x ∧
      (∀ d ∈ c :: W, w.isWord d) ∧ s = x ++ (c :: (W ++ '=' :: t)) := by
  unfold attributePattern text
  rw [List.append_assoc, reads_literal_append]
  constructor
  · rintro ⟨x, u, hx, rfl, v, ⟨c, hc, rfl⟩, v', ⟨W, hW, rfl⟩, hv⟩
    obtain ⟨e, he, rfl⟩ := reads_literal.mp hv
    rw [show "=".toList = ['='] from by decide, fits_singleton (by decide)] at he
    subst he
    exact ⟨x, c, W, hx, List.forall_mem_cons.mpr ⟨hc, hW⟩, rfl⟩
  · rintro ⟨x, c, W, hx, hW, rfl⟩
    obtain ⟨hc, hW⟩ := List.forall_mem_cons.mp hW
    refine ⟨x, _, hx, rfl, _, ⟨c, hc, rfl⟩, _, ⟨W, hW, rfl⟩, ?_⟩
    refine reads_literal.mpr ⟨['='], ?_, rfl⟩
    rw [show "=".toList = ['='] from by decide, fits_singleton (by decide)]

theorem matchAt_jndiPattern (s : List Char) : matchAt jndiPattern s = none := by
  rw [matchAt_eq_none_iff]
  unfold jndiPattern text
  simp only [List.append_assoc, List.cons_append, List.nil_append]
  rintro t ⟨u, ⟨hs, rfl⟩, hu⟩
  obtain ⟨x, u, hx, rfl, -⟩ := reads_literal_append.mp hu
  have hbrace : '\x7b' ∈ x := mem_of_fits hx (by decide) (by decide)
  rcases of_decide_eq_true hs with h | h
  · rw [(List.append_eq_nil_iff.mp h).1] at hbrace
    simp at hbrace
  · have hmem : '\x7b' ∈ x ++ u := List.mem_append_left u hbrace
    rw [h] at hmem
    simp at hmem

theorem isWord_iff {w : WordChars} {c : Char} (hc : c.toNat < 128) :
    w.isWord c ↔ c.isAlphanum ∨ c = '_' := by
  simp [WordChars.isWord, w.ascii c hc]

theorem consumes_javascript : Consumes javascriptPattern :=
  ⟨ignoringCase 'j', List.mem_map_of_mem (by decide)⟩

theorem consumes_attribute {w : WordChars} : Consumes (attributePattern w) := by
  refine ⟨w.isWord, ?_⟩
  simp [attributePattern]

theorem fits_of_javascript {x s : List Char} (h : matchAt javascriptPattern (x ++ s) = some s) :
    Fits ignoringCase "javascript:".toList x := by
  obtain ⟨x', hx', heq⟩ := reads_javascript.mp (reads_of_matchAt h)
  rwa [List.append_cancel_right heq]

theorem word_of_attribute {w : WordChars} {x s : List Char}
    (h : Reads (attributePattern w) (x ++ s) s) :
    ∃ y c W, Fits ignoringCase "on".toList y ∧ (∀ d ∈ c :: W, w.isWord d) ∧
      x = y ++ (c :: (W ++ ['='])) := by
  obtain ⟨y, c, W, hy, hW, heq⟩ := reads_attribute.mp h
  refine ⟨y, c, W, hy, hW, List.append_cancel_right (heq.trans ?_)⟩
  simp

theorem two_of_fits {a b : Char} {w x : List Char} (h : Fits ignoringCase (a :: b :: w) x) :
    ∃ d e x', d ∈ variants a ∧ e ∈ variants b ∧ x = d :: e :: x' := by
  cases h with
  | @cons _ d _ x hd hx =>
    cases hx with
    | @cons _ e _ x he hx => exact ⟨d, e, x, ignoringCase_iff.mp hd, ignoringCase_iff.mp he, rfl⟩

theorem not_mem_of_attribute {w : WordChars} {x s : List Char} {c : Char}
    (h : Reads (attributePattern w) (x ++ s) s) (hc : c.toNat < 128)
    (hword : ¬ (c.isAlphanum ∨ c = '_')) (heq : c ≠ '=') : c ∉ x := by
  obtain ⟨y, d, W, hy, hW, rfl⟩ := word_of_attribute h
  have hon : ∀ e ∈ "on".toList, c ∉ variants e := by
    have hletters : ∀ e ∈ "on".toList, (variants e).all Char.isAlphanum := of_all (by decide)
    exact fun e he hmem => hword (Or.inl (List.all_eq_true.mp (hletters e he) c hmem))
  have hnotW : c ∉ d :: W := fun hmem => hword ((isWord_iff hc).mp (hW c hmem))
  simp only [List.mem_append, List.mem_cons, List.not_mem_nil, or_false, not_or] at hnotW ⊢
  exact ⟨not_mem_of_fits hy hon, hnotW.1, hnotW.2, heq⟩

end GroundGraph.Security
