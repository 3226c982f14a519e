import GroundGraph.Ingestion.HeadingAgreement

/-! Whether the heading path of a section holds the headings above it. The chunker keeps the path
as a stack that a heading cuts to one less than its level, so the path is right as long as no level
above a heading is left out, and as long as each heading is found by its own text.
-/

set_option autoImplicit false

namespace GroundGraph.Ingestion

open PyText

/-- The sections begin at the headings, the preamble apart, and the path of each is the texts of
its ancestors and its own: of the nearest headings in front of it with lower and lower levels. -/
def PathsKept (content : ParsedContent) (found : List (Int × Int × List Char)) : Prop :=
  (splitByHeading content).map Section.place =
    preamblePlace found ++ (Outline.outline levelOf found).map placeOf

instance (content : ParsedContent) (found : List (Int × Int × List Char)) :
    Decidable (PathsKept content found) :=
  inferInstanceAs (Decidable (_ = _))

section

variable {content : ParsedContent} {found : List (Int × Int × List Char)}

theorem eq_of_preamble_append {found' : List (Int × Int × List Char)}
    (h : (preamble found' ++ found'.map fun g => (g.1, some g.2.2)) =
      preamble found ++ found.map fun g => (g.1, some g.2.2)) :
    (found'.map fun g => (g.1, g.2.2)) = found.map fun g => (g.1, g.2.2) := by
  have hread : ∀ gs : List (Int × Int × List Char),
      (preamble gs ++ gs.map fun g => (g.1, some g.2.2)).filterMap
        (fun p => p.2.map fun text => (p.1, text)) = gs.map fun g => (g.1, g.2.2) := by
    intro gs
    rw [List.filterMap_append, List.filterMap_map]
    have hnone : (preamble gs).filterMap (fun p => p.2.map fun text => (p.1, text)) = [] := by
      unfold preamble
      split <;> rfl
    rw [hnone, List.nil_append, ← List.filterMap_eq_map]
    rfl
  rw [← hread found', ← hread found, h]

theorem eq_of_map_eq {found' : List (Int × Int × List Char)}
    (hlevel : ∀ g ∈ found', ∀ h ∈ found, g.1 = h.1 → g.2.1 = h.2.1)
    (h : (found'.map fun g => (g.1, g.2.2)) = found.map fun g => (g.1, g.2.2)) :
    found' = found := by
  induction found' generalizing found with
  | nil => exact (List.map_eq_nil_iff.mp h.symm).symm
  | cons g rest ih =>
    cases found with
    | nil => cases h
    | cons g' rest' =>
      obtain ⟨hfirst, hrest⟩ := List.cons.inj h
      obtain ⟨hline, htext⟩ := Prod.mk.inj hfirst
      have hsame := hlevel g List.mem_cons_self g' List.mem_cons_self hline
      have htail := ih (fun a ha b hb => hlevel a (List.mem_cons_of_mem _ ha) b
        (List.mem_cons_of_mem _ hb)) hrest
      rw [htail, Prod.ext hline (Prod.ext hsame htext)]

theorem length_of_placeOf_eq (a : Int × Int × List Char) (s t : List (Int × Int × List Char))
    (h : placeOf (a, s) = placeOf (a, t)) : s.length = t.length := by
  have hlength := congrArg (fun p => p.2.length) h
  simpa [placeOf] using hlength

theorem pathsKept_iff (hl : Located content found)
    (hlevel : ∀ g ∈ sectionHeadings content, ∀ h ∈ found, g.1 = h.1 → g.2.1 = h.2.1) :
    PathsKept content found ↔ WellHeaded content found ∧ Outline.Gapless levelOf found := by
  rw [← headingsAgree_iff hl, headingsAgree_iff_levels hl]
  by_cases hheadings : content.headings = []
  · obtain rfl := hl.eq_nil hheadings
    have hnone : sectionHeadings content = [] := by
      refine List.eq_nil_iff_forall_not_mem.mpr fun g hg => ?_
      obtain ⟨m, line, _, hmatch, _⟩ := mem_numbered_iff.mp hg
      rw [hheadings, matchedHeading_nil] at hmatch
      cases hmatch
    have hkept : PathsKept content [] := by
      rw [PathsKept, splitByHeading, if_pos hheadings]
      rfl
    exact iff_of_true hkept ⟨hnone, by simp [Outline.Gapless]⟩
  · have hpositive : ∀ h ∈ found, 1 ≤ levelOf h := by
      intro h hh
      have hone := hl.level h hh
      unfold levelOf
      omega
    have hplaces := splitByHeading_places hheadings (hl.lines_ne_nil hheadings)
    rw [PathsKept, hplaces]
    constructor
    · intro hkept
      have heads := congrArg (List.map fun p => (p.1, p.2.getLast?)) hkept
      rw [List.map_append, List.map_append, map_preamblePlace, map_preamblePlace, map_placeOf,
        map_placeOf, Outline.stacked, Outline.map_fst_stackedFrom, Outline.outline,
        Outline.map_fst_outlineFrom] at heads
      have heq := eq_of_map_eq hlevel (eq_of_preamble_append heads)
      rw [heq, List.append_cancel_left_eq, Outline.stacked_eq_iff placeOf length_of_placeOf_eq
        hpositive] at hkept
      exact ⟨heq, hkept⟩
    · rintro ⟨heq, hgapless⟩
      rw [heq, (Outline.stacked_eq_iff placeOf length_of_placeOf_eq hpositive).mpr hgapless]

end

/-! ## The lines of markdown headings -/

theorem takeWhile_hashes {n : Nat} {w : Char} (hw : w ≠ '#') (v : List Char) :
    (List.replicate n '#' ++ w :: v).takeWhile (· = '#') = List.replicate n '#' := by
  rw [List.takeWhile_append_of_pos (by simp)]
  simp [hw]

theorem exists_hashes (s : List Char) :
    s = List.replicate (s.takeWhile (· = '#')).length '#' ++
      s.drop (s.takeWhile (· = '#')).length := by
  induction s with
  | nil => rfl
  | cons c s ih =>
    by_cases hc : c = '#'
    · subst hc
      simpa [List.replicate_succ] using ih
    · simp [hc]

theorem matchSpaceText_head {s : List Char} {found : List Char × List Char}
    (h : matchSpaceText s = some found) : ∃ w u, s = w :: u ∧ isSpace w = true := by
  unfold matchSpaceText at h
  simp only at h
  split at h
  · cases h
  · rename_i hspaces
    cases s with
    | nil => exact absurd rfl hspaces
    | cons w u =>
      refine ⟨w, u, rfl, ?_⟩
      by_contra hw
      exact hspaces (List.takeWhile_cons_of_neg hw)

theorem matchHeading_shape {s text rest : List Char} {level : Int}
    (h : matchHeading s = some (level, text, rest)) :
    ∃ (n : Nat) (w : Char) (u : List Char), 1 ≤ n ∧ n ≤ 6 ∧ level = n ∧
      s = List.replicate n '#' ++ w :: u ∧ isSpace w = true := by
  unfold matchHeading at h
  simp only at h
  split at h
  · rename_i hlevel
    obtain ⟨_, hspace, hmatch⟩ := Option.map_eq_some_iff.mp h
    obtain ⟨w, u, hdrop, hw⟩ := matchSpaceText_head hspace
    have hs := exists_hashes s
    rw [hdrop] at hs
    exact ⟨_, w, u, hlevel.1, hlevel.2, (Prod.mk.inj hmatch).1.symm, hs, hw⟩
  · cases h

theorem matchHeading_plain {n : Nat} (hone : 1 ≤ n) (hsix : n ≤ 6) {c : Char}
    (hc : isSpace c = false) (u : List Char) :
    matchHeading (List.replicate n '#' ++ ' ' :: c :: u) =
      some ((n : Int), strip ((c :: u).takeWhile (· ≠ '\n')), (c :: u).dropWhile (· ≠ '\n')) := by
  have hspace : matchSpaceText (' ' :: c :: u) =
      some ((c :: u).takeWhile (· ≠ '\n'), (c :: u).dropWhile (· ≠ '\n')) := by
    have hblank : isSpace ' ' = true := by decide
    unfold matchSpaceText
    simp [hblank, hc]
  unfold matchHeading
  simp only [takeWhile_hashes (show ' ' ≠ '#' by decide), List.length_replicate]
  rw [if_pos ⟨hone, hsix⟩, List.drop_left' (List.length_replicate), hspace]
  rfl

theorem lstrip_hashes {n : Nat} (hn : 1 ≤ n) (s : List Char) :
    lstrip (List.replicate n '#' ++ s) = List.replicate n '#' ++ s := by
  obtain ⟨k, rfl⟩ := Nat.exists_eq_add_of_le hn
  rw [Nat.add_comm, List.replicate_succ]
  rfl

theorem rstrip_hashes (n : Nat) : rstrip (List.replicate n '#') = List.replicate n '#' := by
  rw [rstrip, List.rdropWhile_eq_self_iff]
  intro hne
  rw [List.getLast_replicate]
  decide

theorem rstrip_cons_of_not_blank {w : Char} {v : List Char} (h : blank (w :: v) = false) :
    ∃ v', rstrip (w :: v) = w :: v' := by
  have hpre : rstrip (w :: v) <+: w :: v := List.rdropWhile_prefix isSpace _
  cases hstrip : rstrip (w :: v) with
  | nil =>
    rw [rstrip_eq_nil_iff, h] at hstrip
    cases hstrip
  | cons w' v' =>
    rw [hstrip, List.cons_prefix_cons] at hpre
    exact ⟨v', by rw [hpre.1]⟩

theorem strip_hashes {n : Nat} (hn : 1 ≤ n) (w : Char) (v : List Char) :
    strip (List.replicate n '#' ++ w :: v) = List.replicate n '#' ∨
      ∃ v', strip (List.replicate n '#' ++ w :: v) = List.replicate n '#' ++ w :: v' := by
  rw [strip, lstrip_hashes hn]
  cases hblank : blank (w :: v) with
  | true =>
    rw [rstrip_append_of_blank hblank, rstrip_hashes]
    exact Or.inl rfl
  | false =>
    obtain ⟨v', hv'⟩ := rstrip_cons_of_not_blank hblank
    rw [rstrip_append hblank, hv']
    exact Or.inr ⟨v', rfl⟩

theorem line_of_hashes {body line : List Char} {m n : Nat} {w : Char} {u : List Char}
    (hget : (splitlinesKeepends body)[m]? = some line)
    (hdrop : body.drop (lineStart body m) = List.replicate n '#' ++ w :: u) :
    ∃ v, line = List.replicate n '#' ++ w :: v := by
  have hline := hget
  rw [splitlinesKeepends, List.getElem?_map] at hline
  obtain ⟨l, hl, rfl⟩ := Option.map_eq_some_iff.mp hline
  have hsplit := drop_lineStart_cons hget
  rw [hdrop] at hsplit
  have hlong : n < (l.1 ++ l.2).length := by
    by_contra hle
    have hpre : l.1 ++ l.2 <+: List.replicate n '#' := by
      refine List.prefix_of_prefix_length_le ?_ (List.prefix_append _ (w :: u)) ?_
      · rw [hsplit]
        exact List.prefix_append _ _
      · rw [List.length_replicate]
        exact Nat.not_lt.mp hle
    have hstop : l.2 = [] := by
      by_contra hne
      obtain ⟨c, hc⟩ := List.exists_mem_of_ne_nil _ hne
      have hhash := List.eq_of_mem_replicate (hpre.subset (List.mem_append_right l.1 hc))
      have hspace := List.all_eq_true.mp (blank_of_mem_lines l (List.mem_of_getElem? hl)) c hc
      rw [hhash] at hspace
      revert hspace
      decide
    have hlength := congrArg List.length hsplit
    rw [drop_succ_of_no_stop hl hstop, List.flatten_nil, List.append_nil, List.length_append,
      List.length_replicate, List.length_cons] at hlength
    omega
  have hpre : List.replicate n '#' ++ [w] <+: l.1 ++ l.2 := by
    have hlist : List.replicate n '#' ++ [w] <+: List.replicate n '#' ++ w :: u := ⟨u, by simp⟩
    refine List.prefix_of_prefix_length_le hlist ?_ ?_
    · rw [hsplit]
      exact List.prefix_append _ _
    · rw [List.length_append, List.length_replicate, List.length_singleton]
      exact hlong
  obtain ⟨v, hv⟩ := hpre
  exact ⟨v, by rw [← hv, List.append_assoc, List.singleton_append]⟩

theorem takeWhile_strip_hashes {n : Nat} (hn : 1 ≤ n) {w : Char} (hw : w ≠ '#')
    (v : List Char) :
    (strip (List.replicate n '#' ++ w :: v)).takeWhile (· = '#') = List.replicate n '#' := by
  rcases strip_hashes hn w v with h | ⟨v', h⟩
  · rw [h, List.takeWhile_eq_self_iff]
    exact fun c hc => decide_eq_true (List.eq_of_mem_replicate hc)
  · rw [h, takeWhile_hashes hw]

theorem headingStartsFrom_match {body : List Char} (fuel : Nat) (lineStart : Bool) (pos : Nat)
    (s : List Char) (hs : body.drop pos = s) :
    ∀ h ∈ headingStartsFrom fuel lineStart pos s,
      ∃ behind, matchHeading (body.drop h.1) = some (h.2.1, h.2.2, behind) := by
  induction fuel generalizing lineStart pos s with
  | zero => exact List.forall_mem_nil _
  | succ fuel ih =>
    cases s with
    | nil => exact List.forall_mem_nil _
    | cons c s =>
      simp only [headingStartsFrom]
      split
      · rename_i level text rest hmatch
        obtain ⟨hstart, _, hsuffix, _⟩ := matchHeading_of_start hmatch
        rw [hstart, if_pos rfl] at hmatch
        rw [List.forall_mem_cons]
        exact ⟨⟨rest, by rw [hs, hmatch]⟩, ih false _ rest (drop_of_suffix hs hsuffix)⟩
      · refine ih _ _ s ?_
        rw [← List.drop_drop, hs]
        rfl

/-- Line `m` of the body is found to be this heading. -/
structure HeadingAt (body : List Char) (m : Nat) (h : Int × Int × List Char) : Prop where
  line : h.1 = ((1 + m : Nat) : Int)
  found : ∃ behind, matchHeading (body.drop (lineStart body m)) = some (h.2.1, h.2.2, behind)

theorem headingLines_at {body : List Char} :
    ∀ h ∈ headingLines body, ∃ m, HeadingAt body m h := by
  intro h hh
  obtain ⟨g, hg, rfl⟩ := List.mem_map.mp hh
  obtain ⟨_, hlt, hstart, _⟩ := (headingStartsFrom_spec body.length true 0 body rfl
    fun _ => Or.inl rfl).1 g hg
  have hline := hstart.lineStart_eq (Nat.le_of_lt hlt)
  refine ⟨lineAtOffset body g.1 - 1, ?_, ?_⟩
  · simp only [lineAtOffset]
    omega
  · rw [hline]
    exact headingStartsFrom_match _ _ 0 body rfl g hg

theorem HeadingAt.shape {body line : List Char} {m : Nat} {h : Int × Int × List Char}
    (hat : HeadingAt body m h) (hget : (splitlinesKeepends body)[m]? = some line) :
    ∃ (n : Nat) (w : Char) (v : List Char), 1 ≤ n ∧ n ≤ 6 ∧ h.2.1 = n ∧ isSpace w = true ∧
      line = List.replicate n '#' ++ w :: v := by
  obtain ⟨behind, hmatch⟩ := hat.found
  obtain ⟨n, w, u, hone, hsix, hlevel, hdrop, hw⟩ := matchHeading_shape hmatch
  obtain ⟨v, hv⟩ := line_of_hashes hget hdrop
  exact ⟨n, w, v, hone, hsix, hlevel, hw, hv⟩

theorem ne_hash_of_isSpace {w : Char} (hw : isSpace w = true) : w ≠ '#' := by
  rintro rfl
  revert hw
  decide

theorem level_of_isPrefix {g : Int × List Char} {line : List Char}
    (h : headingPrefix g <+: strip line) :
    (strip line).takeWhile (· = '#') = List.replicate g.1.toNat '#' := by
  obtain ⟨rest, hrest⟩ := h
  rw [← hrest, headingPrefix, List.append_assoc, List.cons_append, takeWhile_hashes (by decide)]

theorem sectionHeadings_level {content : ParsedContent}
    (hheadings : content.headings = extractHeadings content.body) :
    ∀ g ∈ sectionHeadings content, ∀ h ∈ headingLines content.body, g.1 = h.1 →
      g.2.1 = h.2.1 := by
  have hpositive := (headingLines_located hheadings).level_headings
  rintro ⟨i, g⟩ hg h hh hline
  obtain ⟨m, line, hget, hmatch, hi⟩ := mem_numbered_iff.mp hg
  obtain ⟨m', hat⟩ := headingLines_at h hh
  obtain rfl : m' = m := by
    have hline' := hat.line
    simp only at hline
    omega
  rw [matchedHeading_eq_findHeading hpositive] at hmatch
  have hlevel := level_of_isPrefix (findHeading_eq_some_iff.mp hmatch).1
  obtain ⟨n, w, v, hone, _, hn, hw, rfl⟩ := hat.shape hget
  rw [takeWhile_strip_hashes hone (ne_hash_of_isSpace hw)] at hlevel
  have hcount := congrArg List.length hlevel
  rw [List.length_replicate, List.length_replicate] at hcount
  have hg1 := hpositive g (List.mem_of_find?_eq_some hmatch)
  simp only
  omega

theorem headings_pathsKept_iff {content : ParsedContent}
    (hheadings : content.headings = extractHeadings content.body) :
    PathsKept content (headingLines content.body) ↔
      WellHeaded content (headingLines content.body) ∧
        Outline.Gapless levelOf (headingLines content.body) :=
  pathsKept_iff (headingLines_located hheadings) (sectionHeadings_level hheadings)

/-! ## Headings as the chunker writes them -/

/-- A line that reads like a heading: one to six hashes with white space or nothing behind them.
White space in front does not count. -/
def looksLikeHeading (line : List Char) : Bool :=
  let text := strip line
  let level := (text.takeWhile (· = '#')).length
  decide (1 ≤ level ∧ level ≤ 6) && (text.drop level).head?.all isSpace

/-- The hashes begin the line, and one blank stands between them and the text. -/
def isPlainHeading (line : List Char) : Bool :=
  let level := (line.takeWhile (· = '#')).length
  decide (1 ≤ level) &&
    match line.drop level with
    | ' ' :: c :: _ => !isSpace c
    | _ => false

/-- Every line that reads like a heading is one, behind a newline or at the very front. -/
def PlainHeadings (body : List Char) : Prop :=
  ∀ m < (splitlinesKeepends body).length,
    looksLikeHeading (lineAt (splitlinesKeepends body) m) = true →
      isPlainHeading (lineAt (splitlinesKeepends body) m) = true ∧
        (body.take (lineStart body m)).getLast?.all (· = '\n') = true

instance (body : List Char) : Decidable (PlainHeadings body) :=
  inferInstanceAs (Decidable (∀ m < _, _))

theorem looksLikeHeading_of_hashes {n : Nat} (hone : 1 ≤ n) (hsix : n ≤ 6) {w : Char}
    (hw : isSpace w = true) (v : List Char) :
    looksLikeHeading (List.replicate n '#' ++ w :: v) = true := by
  unfold looksLikeHeading
  simp only [takeWhile_strip_hashes hone (ne_hash_of_isSpace hw), List.length_replicate]
  rcases strip_hashes hone w v with h | ⟨v', h⟩
  · simp [h, hone, hsix]
  · simp [h, hone, hsix, hw]

theorem looksLikeHeading_of_isPrefix {g : Int × List Char} (hone : 1 ≤ g.1) (hsix : g.1 ≤ 6)
    {line : List Char} (h : headingPrefix g <+: strip line) : looksLikeHeading line = true := by
  unfold looksLikeHeading
  simp only [level_of_isPrefix h, List.length_replicate]
  obtain ⟨rest, hrest⟩ := h
  have hblank : isSpace ' ' = true := by decide
  have hlevel : 1 ≤ g.1.toNat ∧ g.1.toNat ≤ 6 := by omega
  rw [← hrest, headingPrefix, List.append_assoc, List.drop_left' List.length_replicate]
  simp [hlevel, hblank]

theorem lineStart_of_getLast? {body : List Char} {pos : Nat} (hle : pos ≤ body.length)
    (h : (body.take pos).getLast?.all (· = '\n') = true) : LineStart body pos := by
  cases hlast : (body.take pos).getLast? with
  | none =>
    have hnil := List.getLast?_eq_none_iff.mp hlast
    have hlength := congrArg List.length hnil
    rw [List.length_take, Nat.min_eq_left hle] at hlength
    exact Or.inl hlength
  | some c =>
    rw [hlast] at h
    obtain ⟨before, hbefore⟩ := List.getLast?_eq_some_iff.mp hlast
    have hc : c = '\n' := by simpa using h
    exact Or.inr ⟨before, hc ▸ hbefore⟩

theorem PlainHeadings.shape {body line : List Char} (hplain : PlainHeadings body) {m : Nat}
    (hget : (splitlinesKeepends body)[m]? = some line) (hlooks : looksLikeHeading line = true) :
    ∃ (n : Nat) (c : Char) (v : List Char), 1 ≤ n ∧ n ≤ 6 ∧ isSpace c = false ∧
      line = List.replicate n '#' ++ ' ' :: c :: v ∧ LineStart body (lineStart body m) := by
  have hat : lineAt (splitlinesKeepends body) m = line := by
    rw [lineAt, List.getD_eq_getElem?_getD, hget]
    rfl
  obtain ⟨hline, hstart⟩ := hplain m (List.getElem?_eq_some_iff.mp hget).1 (hat ▸ hlooks)
  rw [hat] at hline
  unfold isPlainHeading at hline
  simp only [Bool.and_eq_true, decide_eq_true_eq] at hline
  obtain ⟨hone, hmatch⟩ := hline
  split at hmatch
  · rename_i c v hdrop
    have hshape := exists_hashes line
    rw [hdrop] at hshape
    refine ⟨_, c, v, hone, ?_, by simpa using hmatch, hshape,
      lineStart_of_getLast? (lineStart_le body m) hstart⟩
    unfold looksLikeHeading at hlooks
    simp only [Bool.and_eq_true, decide_eq_true_eq] at hlooks
    rw [hshape, takeWhile_strip_hashes hone (by decide), List.length_replicate] at hlooks
    exact hlooks.1.2
  · cases hmatch

theorem not_lineStart_of_no_newline {body x rest : List Char} {pos q : Nat}
    (hdrop : body.drop pos = x ++ rest) (hx : '\n' ∉ x) (hlt : pos < q) (hle : q ≤ pos + x.length) :
    ¬ LineStart body q := by
  rintro (rfl | ⟨before, hbefore⟩)
  · exact absurd hlt (Nat.not_lt_zero pos)
  · have htake : body.take q = body.take pos ++ x.take (q - pos) := by
      conv_lhs => rw [← Nat.add_sub_cancel' (Nat.le_of_lt hlt), List.take_add, hdrop]
      rw [List.take_append_of_le_length (by omega)]
    have hne : x.take (q - pos) ≠ [] := by
      rw [Ne, ← List.length_eq_zero_iff, List.length_take]
      omega
    have hlast := congrArg List.getLast? (htake.symm.trans hbefore)
    rw [List.getLast?_append_of_ne_nil _ hne, List.getLast?_concat] at hlast
    exact hx (List.mem_of_mem_take (List.mem_of_getLast? hlast))

theorem lineStart_succ_iff {body s : List Char} {pos : Nat} {c : Char}
    (hs : body.drop pos = c :: s) : LineStart body (pos + 1) ↔ c = '\n' := by
  constructor
  · intro hstart
    by_contra hc
    have hchar : body.drop pos = [c] ++ s := hs
    refine not_lineStart_of_no_newline hchar ?_ (Nat.lt_succ_self pos) (Nat.le_refl _) hstart
    simpa using fun h => hc h.symm
  · intro hc
    exact LineStart.of_newline (hc ▸ hs)

theorem lt_length_of_match {body : List Char} {p : Nat}
    (h : (matchHeading (body.drop p)).isSome = true) : p < body.length := by
  by_contra hle
  rw [List.drop_of_length_le (Nat.not_lt.mp hle)] at h
  cases h

/-- Where no match takes a newline, every line that matches is found. -/
theorem headingStartsFrom_complete {body : List Char}
    (hmatches : ∀ p level text rest, LineStart body p →
      matchHeading (body.drop p) = some (level, text, rest) →
        ∃ x, body.drop p = x ++ rest ∧ '\n' ∉ x)
    (fuel : Nat) (lineStart : Bool) (pos : Nat) (s : List Char) (hs : body.drop pos = s)
    (hfuel : s.length ≤ fuel) (hline : lineStart = true ↔ LineStart body pos) :
    ∀ p, pos ≤ p → LineStart body p → (matchHeading (body.drop p)).isSome = true →
      ∃ h ∈ headingStartsFrom fuel lineStart pos s, h.1 = p := by
  induction fuel generalizing lineStart pos s with
  | zero =>
    intro p hle _ hsome
    have hlt := lt_length_of_match hsome
    rw [← hs, List.length_drop] at hfuel
    omega
  | succ fuel ih =>
    intro p hle hstart hsome
    cases s with
    | nil =>
      have hlt := lt_length_of_match hsome
      have hend := List.drop_eq_nil_iff.mp hs
      omega
    | cons c s =>
      simp only [headingStartsFrom]
      split
      · rename_i level text rest hmatch
        obtain ⟨hflag, _, hsuffix, hshorter⟩ := matchHeading_of_start hmatch
        rw [hflag, if_pos rfl, ← hs] at hmatch
        obtain ⟨x, hx, hnewline⟩ := hmatches pos level text rest (hline.mp hflag) hmatch
        have hlength : (c :: s).length - rest.length = x.length := by
          rw [← hs, hx, List.length_append]
          omega
        have hinside : ∀ q, pos < q → q ≤ pos + x.length → ¬ LineStart body q :=
          fun q => not_lineStart_of_no_newline hx hnewline
        rcases Nat.eq_or_lt_of_le hle with rfl | hlt
        · exact ⟨_, List.mem_cons_self, rfl⟩
        · have hbehind : pos + x.length < p := by
            by_contra hin
            exact hinside p hlt (Nat.not_lt.mp hin) hstart
          obtain ⟨h, hh, hp⟩ := ih false _ rest (drop_of_suffix hs hsuffix) (by omega)
            (iff_of_false Bool.false_ne_true (hinside _ (by omega) (by omega))) p (by omega)
            hstart hsome
          exact ⟨h, List.mem_cons_of_mem _ hh, hp⟩
      · rename_i hnone
        have hnext : body.drop (pos + 1) = s := by
          rw [← List.drop_drop, hs]
          rfl
        rcases Nat.eq_or_lt_of_le hle with rfl | hlt
        · rw [hline.mpr hstart, if_pos rfl, ← hs] at hnone
          rw [hnone] at hsome
          cases hsome
        · refine ih (decide (c = '\n')) (pos + 1) s hnext (Nat.le_of_succ_le_succ hfuel) ?_ p hlt
            hstart hsome
          rw [decide_eq_true_eq, lineStart_succ_iff hs]

theorem PlainHeadings.match_shape {body : List Char} (hplain : PlainHeadings body) {m : Nat}
    {level : Int} {text rest : List Char}
    (hmatch : matchHeading (body.drop (lineStart body m)) = some (level, text, rest)) :
    ∃ (n : Nat) (c : Char) (v : List Char), 1 ≤ n ∧ n ≤ 6 ∧ isSpace c = false ∧ level = n ∧
      (splitlinesKeepends body)[m]? = some (List.replicate n '#' ++ ' ' :: c :: v) := by
  obtain ⟨n, w, u, hone, hsix, hlevel, hdrop, hw⟩ := matchHeading_shape hmatch
  have hin : m < (splitlinesKeepends body).length := by
    have hlt : lineStart body m < body.length := by
      by_contra hle
      rw [List.drop_of_length_le (Nat.not_lt.mp hle)] at hdrop
      simp at hdrop
    simpa [splitlinesKeepends] using lineStart_lt_length.mp hlt
  have hget := List.getElem?_eq_getElem hin
  obtain ⟨v, hv⟩ := line_of_hashes hget hdrop
  obtain ⟨n', c, v', hone', hsix', hc, hline, _⟩ :=
    hplain.shape hget (hv ▸ looksLikeHeading_of_hashes hone hsix hw v)
  have hn : n = n' := by
    have hhashes := hv.symm.trans hline
    have hcount := congrArg (fun s => (s.takeWhile (· = '#')).length) hhashes
    simpa [takeWhile_hashes (ne_hash_of_isSpace hw), takeWhile_hashes (show ' ' ≠ '#' by decide)]
      using hcount
  exact ⟨n', c, v', hone', hsix', hc, by rw [hlevel, hn], by rw [hget, hline]⟩

theorem PlainHeadings.matches {body : List Char} (hplain : PlainHeadings body) :
    ∀ p level text rest, LineStart body p →
      matchHeading (body.drop p) = some (level, text, rest) →
        ∃ x, body.drop p = x ++ rest ∧ '\n' ∉ x := by
  intro p level text rest hstart hmatch
  have hle : p ≤ body.length := by
    by_contra hlt
    rw [List.drop_of_length_le (Nat.le_of_not_le hlt)] at hmatch
    cases hmatch
  have hline := hstart.lineStart_eq hle
  rw [← hline] at hmatch ⊢
  obtain ⟨n, c, v, hone, hsix, hc, _, hget⟩ := hplain.match_shape hmatch
  have hdrop := drop_lineStart_cons hget
  rw [List.append_assoc, List.cons_append, List.cons_append] at hdrop
  generalize ((splitlinesKeepends body).drop (lineAtOffset body p - 1 + 1)).flatten = more at hdrop
  rw [hdrop, matchHeading_plain hone hsix hc] at hmatch
  obtain ⟨_, hrest⟩ := Prod.mk.inj (Prod.mk.inj (Option.some.inj hmatch)).2
  rw [hdrop, ← hrest]
  refine ⟨List.replicate n '#' ++ ' ' :: (c :: (v ++ more)).takeWhile (· ≠ '\n'), ?_, ?_⟩
  · rw [List.append_assoc, List.cons_append, List.takeWhile_append_dropWhile]
  · rw [List.mem_append, List.mem_cons, not_or, not_or]
    refine ⟨fun h => ?_, by decide, fun h => ?_⟩
    · have hhash := List.eq_of_mem_replicate h
      revert hhash
      decide
    · have hnewline := List.mem_takeWhile_imp h
      simp at hnewline

theorem PlainHeadings.mem_headingLines {body line : List Char} (hplain : PlainHeadings body)
    {m : Nat} (hget : (splitlinesKeepends body)[m]? = some line)
    (hlooks : looksLikeHeading line = true) :
    ((1 + m : Nat) : Int) ∈ (headingLines body).map Prod.fst := by
  obtain ⟨n, c, v, hone, hsix, hc, rfl, hstart⟩ := hplain.shape hget hlooks
  have hdrop := drop_lineStart_cons hget
  rw [List.append_assoc, List.cons_append, List.cons_append] at hdrop
  have hsome : (matchHeading (body.drop (lineStart body m))).isSome = true := by
    rw [hdrop, matchHeading_plain hone hsix hc]
    rfl
  obtain ⟨g, hg, hpos⟩ := headingStartsFrom_complete hplain.matches body.length true 0 body rfl
    (Nat.le_refl _) (iff_of_true rfl (Or.inl rfl)) _ (Nat.zero_le _) hstart hsome
  have hle : m ≤ (lines body).length := by
    have hlt := (List.getElem?_eq_some_iff.mp hget).1
    rw [splitlinesKeepends, List.length_map] at hlt
    exact Nat.le_of_lt hlt
  have hline : lineAtOffset body g.1 = 1 + m := by
    rw [hpos, lineAtOffset, lines_take_lineStart, List.length_take, Nat.min_eq_left hle]
  refine List.mem_map.mpr ⟨_, List.mem_map.mpr ⟨g, hg, rfl⟩, ?_⟩
  simp only [hline]

theorem line_split {l : List Char × List Char} {n : Nat} {c : Char} {v : List Char}
    (hc : isSpace c = false) (hblank : blank l.2 = true)
    (hline : l.1 ++ l.2 = List.replicate n '#' ++ ' ' :: c :: v) :
    ∃ r, l.1 = List.replicate n '#' ++ ' ' :: c :: r ∧ v = r ++ l.2 := by
  have hfront : List.replicate n '#' ++ ' ' :: c :: v =
      (List.replicate n '#' ++ [' ', c]) ++ v := by simp
  rw [hfront] at hline
  rcases List.append_eq_append_iff.mp hline with ⟨a, hleft, hright⟩ | ⟨a, hleft, hright⟩
  · rcases List.eq_nil_or_concat a with rfl | ⟨a', d, rfl⟩
    · refine ⟨[], ?_, ?_⟩
      · rw [List.append_nil] at hleft
        exact hleft.symm
      · exact hright.symm
    · have hd : d = c := by
        have hlast := congrArg List.getLast? hleft
        simpa using hlast.symm
      have hspace := List.all_eq_true.mp hblank c (by rw [hright, hd]; simp)
      rw [hc] at hspace
      cases hspace
  · exact ⟨a, by rw [hleft]; simp, hright⟩

theorem strip_append_cases {c : Char} (hc : isSpace c = false) (r tail : List Char)
    (hhead : ∀ d ∈ tail.head?, isLineBreak d = true) :
    strip (c :: (r ++ tail)) = rstrip (c :: r) ∨
      ∃ d ∈ strip (c :: (r ++ tail)), isLineBreak d = true := by
  have hlstrip : ∀ s, lstrip (c :: s) = c :: s := fun s => by simp [lstrip, hc]
  rw [← List.cons_append]
  cases hblank : blank tail with
  | true =>
    left
    rw [strip_append_of_blank hblank, strip, hlstrip]
  | false =>
    right
    cases tail with
    | nil => cases hblank
    | cons d s =>
      obtain ⟨s', hs'⟩ := rstrip_cons_of_not_blank hblank
      refine ⟨d, ?_, hhead d rfl⟩
      rw [List.cons_append, strip, hlstrip, ← List.cons_append, rstrip_append hblank, hs']
      exact List.mem_append_right _ List.mem_cons_self

theorem strip_heading_line {l : List Char × List Char} {n : Nat} {c : Char} {r : List Char}
    (hone : 1 ≤ n) (hc : isSpace c = false) (hblank : blank l.2 = true)
    (hfront : l.1 = List.replicate n '#' ++ ' ' :: c :: r) :
    strip (l.1 ++ l.2) = headingPrefix ((n : Int), rstrip (c :: r)) := by
  have htext : blank (c :: r) = false := by simp [blank, hc]
  have hassoc : ∀ s : List Char, List.replicate n '#' ++ ' ' :: s =
      (List.replicate n '#' ++ [' ']) ++ s := fun s => by simp
  rw [strip_append_of_blank hblank, hfront, strip, lstrip_hashes hone, headingPrefix,
    Int.toNat_natCast, hassoc (c :: r), rstrip_append htext, List.append_assoc]
  rfl

/-- The text of a heading is that of its line, unless it goes on behind a line break. -/
theorem PlainHeadings.text {body line : List Char} (hplain : PlainHeadings body) {m : Nat}
    {h : Int × Int × List Char} (hat : HeadingAt body m h)
    (hget : (splitlinesKeepends body)[m]? = some line) :
    ∃ t, strip line = headingPrefix (h.2.1, t) ∧ (∀ c ∈ t, isLineBreak c = false) ∧
      (h.2.2 = t ∨ ∃ c ∈ h.2.2, isLineBreak c = true) := by
  obtain ⟨behind, hmatch⟩ := hat.found
  obtain ⟨n, c, v, hone, hsix, hc, hlevel, hget'⟩ := hplain.match_shape hmatch
  obtain rfl := Option.some.inj (hget.symm.trans hget')
  have hlines := hget
  rw [splitlinesKeepends, List.getElem?_map] at hlines
  obtain ⟨l, hl, hline⟩ := Option.map_eq_some_iff.mp hlines
  have hmem := List.mem_of_getElem? hl
  obtain ⟨r, hfront, rfl⟩ := line_split hc (blank_of_mem_lines l hmem) hline
  have hin : ∀ d ∈ c :: r, d ∈ l.1 := fun d hd => by
    rw [hfront]
    exact List.mem_append_right _ (List.mem_cons_of_mem _ hd)
  refine ⟨rstrip (c :: r), ?_, ?_, ?_⟩
  · rw [← hline, hlevel]
    exact strip_heading_line hone hc (blank_of_mem_lines l hmem) hfront
  · intro d hd
    have hpre : rstrip (c :: r) <+: c :: r := List.rdropWhile_prefix isSpace _
    exact (breaks_of_mem_lines l hmem).1 d (hin d (hpre.subset hd))
  · have hdrop := drop_lineStart_cons hget
    rw [List.append_assoc, List.cons_append, List.cons_append, List.append_assoc] at hdrop
    rw [hdrop, matchHeading_plain hone hsix hc] at hmatch
    have hread := (Prod.mk.inj (Prod.mk.inj (Option.some.inj hmatch)).2).1
    have hnewline : ∀ d ∈ c :: r, decide (d ≠ '\n') = true := fun d hd => by
      rw [decide_eq_true_eq]
      rintro rfl
      exact (newline_of_mem_lines l hmem).1 (hin _ hd)
    rw [← List.cons_append, List.takeWhile_append_of_pos hnewline, List.cons_append] at hread
    rw [← hread]
    refine strip_append_cases hc r _ fun d hd => ?_
    -- what follows the line is read only if the line has an end
    have hstop : l.2 ≠ [] := by
      intro hnil
      rw [hnil, drop_succ_of_no_stop hl hnil] at hd
      cases hd
    obtain ⟨d', s, hs⟩ := List.exists_cons_of_ne_nil hstop
    rw [hs, List.cons_append, List.takeWhile_cons] at hd
    split at hd
    · obtain rfl := Option.some.inj hd
      exact (breaks_of_mem_lines l hmem).2 d' (by rw [hs]; rfl)
    · cases hd

theorem headingPrefix_prefix_iff {g h : Int × List Char} (hg : 1 ≤ g.1) (hh : 1 ≤ h.1) :
    headingPrefix g <+: headingPrefix h ↔ g.1 = h.1 ∧ g.2 <+: h.2 := by
  unfold headingPrefix
  constructor
  · intro hpre
    have hcount : g.1.toNat = h.1.toNat := by
      obtain ⟨rest, hrest⟩ := hpre
      have hhashes := congrArg (List.takeWhile (· = '#')) hrest
      rw [List.append_assoc, List.cons_append, takeWhile_hashes (by decide),
        takeWhile_hashes (by decide)] at hhashes
      simpa using congrArg List.length hhashes
    rw [hcount, List.prefix_append_right_inj, List.cons_prefix_cons] at hpre
    exact ⟨by omega, hpre.2⟩
  · rintro ⟨hlevel, htext⟩
    rw [hlevel, List.prefix_append_right_inj, List.cons_prefix_cons]
    exact ⟨rfl, htext⟩

/-- The texts of the headings tell them apart: none goes on behind a line break, and none stands in
front of the first one with a longer text that begins with it, at the same level. -/
structure TextsApart (headings : List (Int × List Char)) : Prop where
  oneLine : ∀ h ∈ headings, ∀ c ∈ h.2, isLineBreak c = false
  first : ∀ h ∈ headings, ∃ before after, headings = before ++ h :: after ∧
    ∀ g ∈ before, ¬ (g.1 = h.1 ∧ g.2 <+: h.2)

theorem headingLines_at_line {body : List Char} {m : Nat} {h : Int × Int × List Char}
    (hh : h ∈ headingLines body) (hline : h.1 = ((1 + m : Nat) : Int)) : HeadingAt body m h := by
  obtain ⟨m', hat⟩ := headingLines_at h hh
  obtain rfl : m' = m := by
    have hline' := hat.line
    omega
  exact hat

/-- The line is the heading as the chunker writes it, when no line break is in the text. -/
theorem PlainHeadings.strip_eq_iff {body line : List Char} (hplain : PlainHeadings body) {m : Nat}
    {h : Int × Int × List Char} (hat : HeadingAt body m h) (hone : 1 ≤ h.2.1)
    (hget : (splitlinesKeepends body)[m]? = some line) :
    (headingPrefix h.2 <+: strip line ↔ ∀ c ∈ h.2.2, isLineBreak c = false) ∧
      ((∀ c ∈ h.2.2, isLineBreak c = false) → strip line = headingPrefix h.2) := by
  obtain ⟨t, hstrip, ht, htext⟩ := hplain.text hat hget
  have heq : (∀ c ∈ h.2.2, isLineBreak c = false) → h.2.2 = t := by
    intro hfree
    refine htext.resolve_right ?_
    rintro ⟨c, hc, hbreak⟩
    rw [hfree c hc] at hbreak
    cases hbreak
  have hsame : (∀ c ∈ h.2.2, isLineBreak c = false) → strip line = headingPrefix h.2 := by
    intro hfree
    rw [hstrip, ← heq hfree]
  refine ⟨⟨fun hpre => ?_, fun hfree => ?_⟩, hsame⟩
  · rw [hstrip] at hpre
    have hinner := ((headingPrefix_prefix_iff (h := (h.2.1, t)) hone hone).mp hpre).2
    exact fun c hc => ht c (hinner.subset hc)
  · rw [hsame hfree]

theorem PlainHeadings.wellHeaded_iff {content : ParsedContent}
    (hplain : PlainHeadings content.body)
    (hheadings : content.headings = extractHeadings content.body) :
    WellHeaded content (headingLines content.body) ↔ TextsApart content.headings := by
  have hl := headingLines_located hheadings
  have hpositive := hl.level_headings
  have hfound : ∀ h ∈ content.headings, ∃ g ∈ headingLines content.body, g.2 = h ∧
      ∃ m line, (splitlinesKeepends content.body)[m]? = some line ∧
        HeadingAt content.body m g := by
    intro h hh
    rw [← hl.headings] at hh
    obtain ⟨g, hg, rfl⟩ := List.mem_map.mp hh
    obtain ⟨m, line, hget, hline⟩ := hl.lines g hg
    exact ⟨g, hg, rfl, m, line, hget, headingLines_at_line hg hline⟩
  constructor
  · intro hwell
    refine ⟨fun h hh => ?_, fun h hh => ?_⟩
    · obtain ⟨g, hg, rfl, m, line, hget, hat⟩ := hfound h hh
      exact (hplain.strip_eq_iff hat (hl.level g hg) hget).1.mp (hwell.own g hg m line hget hat.line)
    · obtain ⟨g, hg, rfl, m, line, hget, hat⟩ := hfound h hh
      have hown := hplain.strip_eq_iff hat (hl.level g hg) hget
      have hstrip := hown.2 (hown.1.mp (hwell.own g hg m line hget hat.line))
      obtain ⟨before, after, hsplit, hnone⟩ := hwell.first g hg m line hget hat.line
      refine ⟨before, after, hsplit, fun h' hh' hpre => hnone h' hh' ?_⟩
      rw [hstrip, headingPrefix_prefix_iff (hpositive h' (by rw [hsplit]; simp [hh']))
        (hl.level g hg)]
      exact hpre
  · intro htexts
    have hstrip : ∀ g ∈ headingLines content.body, ∀ m line,
        (splitlinesKeepends content.body)[m]? = some line → g.1 = ((1 + m : Nat) : Int) →
          strip line = headingPrefix g.2 := by
      intro g hg m line hget hline
      have hin : g.2 ∈ content.headings := hl.headings ▸ List.mem_map_of_mem hg
      exact (hplain.strip_eq_iff (headingLines_at_line hg hline) (hl.level g hg)
        hget).2 (htexts.oneLine g.2 hin)
    refine ⟨fun g hg m line hget hline => ?_, fun g hg m line hget hline => ?_,
      fun m line hget hnot h' hh' hpre => ?_⟩
    · rw [hstrip g hg m line hget hline]
    · have hin : g.2 ∈ content.headings := hl.headings ▸ List.mem_map_of_mem hg
      obtain ⟨before, after, hsplit, hnone⟩ := htexts.first g.2 hin
      refine ⟨before, after, hsplit, fun h' hh' hpre => hnone h' hh' ?_⟩
      rw [hstrip g hg m line hget hline, headingPrefix_prefix_iff
        (hpositive h' (by rw [hsplit]; simp [hh'])) (hl.level g hg)] at hpre
      exact hpre
    · obtain ⟨g, _, rfl, m', line', hget', hat⟩ := hfound h' hh'
      obtain ⟨n, w, v, hone, hsix, hlevel, hw, rfl⟩ := hat.shape hget'
      exact hnot (hplain.mem_headingLines hget
        (looksLikeHeading_of_isPrefix (by omega) (by omega) hpre))

/-- The paths are right exactly when the chunker finds each heading again and no level above one is
left out. Where every heading is as the chunker writes it, only their texts and levels matter. -/
theorem markdown_pathsKept_iff (bytes : List UInt8) :
    (PathsKept (parseMarkdown bytes) (headingLines (parseMarkdown bytes).body) ↔
      WellHeaded (parseMarkdown bytes) (headingLines (parseMarkdown bytes).body) ∧
        Outline.Gapless levelOf (headingLines (parseMarkdown bytes).body)) ∧
    (PlainHeadings (parseMarkdown bytes).body →
      (PathsKept (parseMarkdown bytes) (headingLines (parseMarkdown bytes).body) ↔
        TextsApart (parseMarkdown bytes).headings ∧
          Outline.Gapless levelOf (headingLines (parseMarkdown bytes).body))) := by
  have hkept := headings_pathsKept_iff (parseMarkdown_headings bytes)
  refine ⟨hkept, fun hplain => ?_⟩
  rw [hkept, hplain.wellHeaded_iff (parseMarkdown_headings bytes)]

def regularHeadings : List UInt8 := "# A\n## B\n# C\n".toList.map fun c => UInt8.ofNat c.toNat

theorem markdown_pathsKept_regular :
    TextsApart (parseMarkdown regularHeadings).headings ∧
      Outline.Gapless levelOf (headingLines (parseMarkdown regularHeadings).body) :=
  ((markdown_pathsKept_iff regularHeadings).2 (by decide +kernel)).mp (by decide +kernel)

def skippedLevel : List UInt8 := "### C\n## B\n".toList.map fun c => UInt8.ofNat c.toNat

/-- The second has the first in its path. -/
theorem not_markdown_pathsKept : ¬ ∀ bytes, PlainHeadings (parseMarkdown bytes).body →
    PathsKept (parseMarkdown bytes) (headingLines (parseMarkdown bytes).body) := by
  intro h
  have hkept := h skippedLevel (by decide +kernel)
  revert hkept
  decide +kernel

end GroundGraph.Ingestion
