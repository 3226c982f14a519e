import Mathlib.Data.List.Induction
import Mathlib.Data.List.Nodup
import Mathlib.Order.Bounds.Basic
import Mathlib.Order.Nat

/-! Paths in a graph with labelled edges, written as the list of their labels. Where an
edge may be taken in both directions and a label belongs to one edge, a shortest path to a
label has no label twice.
-/

set_option autoImplicit false

universe u v

namespace LabelledPath

variable {ν : Type u} {κ : Type v}

def Leads (link : ν → κ → ν → Prop) : ν → List κ → ν → Prop
  | a, [], b => a = b
  | a, k :: path, b => ∃ m, link a k m ∧ Leads link m path b

def lengthsTo (link : ν → κ → ν → Prop) (a : ν) (k : κ) : Set Nat :=
  {d | ∃ path b, Leads link a (path ++ [k]) b ∧ d = path.length + 1}

variable {link : ν → κ → ν → Prop}

theorem leads_append {a b : ν} {path path' : List κ} :
    Leads link a (path ++ path') b ↔ ∃ m, Leads link a path m ∧ Leads link m path' b := by
  induction path generalizing a with
  | nil => simp [Leads]
  | cons k path ih =>
    constructor
    · rintro ⟨m, hlink, hrest⟩
      obtain ⟨m', hpath, hpath'⟩ := ih.mp hrest
      exact ⟨m', ⟨m, hlink, hpath⟩, hpath'⟩
    · rintro ⟨m', ⟨m, hlink, hpath⟩, hpath'⟩
      exact ⟨m, hlink, ih.mpr ⟨m', hpath, hpath'⟩⟩

theorem leads_singleton {a b : ν} {k : κ} : Leads link a [k] b ↔ link a k b := by
  simp [Leads]

theorem leads_snoc {a b : ν} {path : List κ} {k : κ} :
    Leads link a (path ++ [k]) b ↔ ∃ m, Leads link a path m ∧ link m k b := by
  simp [leads_append, leads_singleton]

theorem nodup_of_forall_split {l : List κ} (h : ∀ u c v, l = u ++ c :: v → c ∉ u) : l.Nodup := by
  induction l using List.reverseRecOn with
  | nil => exact List.nodup_nil
  | append_singleton l c ih =>
    refine List.nodup_append.mpr ⟨ih fun u c' v hsplit => ?_, List.nodup_singleton c, ?_⟩
    · exact h u c' (v ++ [c]) (by simp [hsplit])
    · rintro a ha _ hc rfl
      exact h l c [] rfl (List.mem_singleton.mp hc ▸ ha)

/-- The edge of a label joins two nodes, in either direction. -/
def Undirected (link : ν → κ → ν → Prop) : Prop :=
  ∀ a b c d k, link a k b → link c k d → (c = a ∧ d = b) ∨ (c = b ∧ d = a)

/-- A label that comes twice can be cut out, so a path with one is not the shortest to its
last label. -/
theorem nodup_of_isLeast (hlink : Undirected link) {a b : ν} {path : List κ} {k : κ}
    (hpath : Leads link a (path ++ [k]) b)
    (hleast : IsLeast (lengthsTo link a k) (path.length + 1)) : (path ++ [k]).Nodup := by
  refine nodup_of_forall_split fun u c v hsplit hc => ?_
  obtain ⟨before, between, rfl⟩ := List.append_of_mem hc
  rw [hsplit, leads_append] at hpath
  obtain ⟨n₃, hfirst, n₄, hagain, hrest⟩ := hpath
  obtain ⟨n₁, hbefore, n₂, honce, -⟩ := leads_append.mp hfirst
  have hlength := congrArg List.length hsplit
  simp only [List.length_append, List.length_cons, List.length_nil] at hlength
  rcases List.eq_nil_or_concat v with rfl | ⟨v, k', rfl⟩
  · -- the label is the last one, and it can be had the first time
    obtain ⟨-, rfl⟩ := List.append_inj' hsplit rfl |>.imp_right List.singleton_inj.mp
    have hshort := hleast.2 ⟨before, n₂, leads_snoc.mpr ⟨n₁, hbefore, honce⟩, rfl⟩
    simp only [List.length_nil] at hlength
    omega
  · rw [List.concat_eq_append] at hsplit hrest hlength
    have hsplit' : path ++ [k] = (before ++ c :: between ++ c :: v) ++ [k'] := by
      rw [hsplit]
      simp
    obtain ⟨-, rfl⟩ := List.append_inj' hsplit' rfl |>.imp_right List.singleton_inj.mp
    simp only [List.length_append, List.length_cons, List.length_nil] at hlength
    rcases hlink n₁ n₂ n₃ n₄ c honce hagain with ⟨-, rfl⟩ | ⟨-, rfl⟩
    · have hcut : Leads link a ((before ++ c :: v) ++ [k]) b := by
        rw [List.append_assoc, leads_append]
        exact ⟨n₁, hbefore, n₄, honce, hrest⟩
      have hshort := hleast.2 ⟨_, b, hcut, rfl⟩
      simp only [List.length_append, List.length_cons] at hshort
      omega
    · have hcut : Leads link a ((before ++ v) ++ [k]) b := by
        rw [List.append_assoc, leads_append]
        exact ⟨n₄, hbefore, hrest⟩
      have hshort := hleast.2 ⟨_, b, hcut, rfl⟩
      simp only [List.length_append] at hshort
      omega

end LabelledPath
