import Mathlib.Data.List.Nodup
import Mathlib.Data.List.Basic

/-! A table with a primary key: finitely many rows, no two with one key. Rows
keep their insertion order, so a query can sort and limit them. Every write is
either an insertion that the key constraint may refuse, or a map over the rows
that leaves keys alone; `get?_modify` turns the second kind into a statement
about one row.
-/

set_option autoImplicit false

universe u v

structure KeyedTable {κ : Type u} {ρ : Type v} (key : ρ → κ) where
  rows : List ρ
  unique : (rows.map key).Nodup

namespace KeyedTable

variable {κ : Type u} {ρ : Type v} {key : ρ → κ}

def empty : KeyedTable key := ⟨[], List.nodup_nil⟩

/-- One more row at the end, under a key that is not taken. -/
def append (t : KeyedTable key) (r : ρ) (h : key r ∉ t.rows.map key) : KeyedTable key :=
  ⟨t.rows ++ [r], by
    have hu := t.unique
    simp only [List.map_append, List.map_cons, List.map_nil]
    refine List.nodup_append.mpr ⟨hu, by simp, ?_⟩
    intro a ha b hb hab
    obtain rfl : b = key r := by simpa using hb
    exact h (hab ▸ ha)⟩

def modify (t : KeyedTable key) (f : ρ → ρ) (hf : ∀ r, key (f r) = key r) : KeyedTable key :=
  ⟨t.rows.map f, by
    have hmap : (t.rows.map f).map key = t.rows.map key := by simp [hf]
    rw [hmap]
    exact t.unique⟩

@[simp] theorem rows_empty : (empty : KeyedTable key).rows = [] := rfl

@[simp] theorem rows_append (t : KeyedTable key) (r : ρ) (h : key r ∉ t.rows.map key) :
    (t.append r h).rows = t.rows ++ [r] := rfl

@[simp] theorem rows_modify (t : KeyedTable key) (f : ρ → ρ) (hf : ∀ r, key (f r) = key r) :
    (t.modify f hf).rows = t.rows.map f := rfl

theorem eq_of_mem (t : KeyedTable key) {r x : ρ} (hr : r ∈ t.rows) (hx : x ∈ t.rows)
    (h : key r = key x) : r = x :=
  List.inj_on_of_nodup_map t.unique hr hx h

variable [DecidableEq κ]

def get? (t : KeyedTable key) (k : κ) : Option ρ :=
  t.rows.find? fun r => decide (key r = k)

/-- A second row with the same key violates the constraint. -/
def insert? (t : KeyedTable key) (r : ρ) : Option (KeyedTable key) :=
  if h : key r ∈ t.rows.map key then none else some (t.append r h)

def setDefault (t : KeyedTable key) (r : ρ) : KeyedTable key :=
  if h : key r ∈ t.rows.map key then t else t.append r h

def upsert (t : KeyedTable key) (r : ρ) : KeyedTable key :=
  if h : key r ∈ t.rows.map key then
    t.modify (fun x => if key x = key r then r else x) (by
      intro x
      by_cases hx : key x = key r <;> simp [hx])
  else t.append r h

def modifyAt (t : KeyedTable key) (k : κ) (f : ρ → ρ) (hf : ∀ r, key (f r) = key r) :
    KeyedTable key :=
  t.modify (fun r => if key r = k then f r else r) (by
    intro r
    by_cases hr : key r = k <;> simp [hr, hf])

/-- `UPDATE … WHERE key = k AND p`: `none` when no row matched. The key is
unique, so at most one row does. -/
def updateWhere (t : KeyedTable key) (k : κ) (p : ρ → Bool) (f : ρ → ρ)
    (hf : ∀ r, key (f r) = key r) : Option (KeyedTable key) :=
  match t.get? k with
  | none => none
  | some r => if p r then some (t.modifyAt k f hf) else none

/-- `UPDATE … RETURNING`: the table afterwards and the row as it was written. -/
def updateReturning (t : KeyedTable key) (k : κ) (p : ρ → Bool) (f : ρ → ρ)
    (hf : ∀ r, key (f r) = key r) : Option (KeyedTable key × ρ) :=
  match t.get? k with
  | none => none
  | some r => if p r then some (t.modifyAt k f hf, f r) else none

@[simp] theorem get?_empty (k : κ) : (empty : KeyedTable key).get? k = none := rfl

theorem get?_some_iff (t : KeyedTable key) {k : κ} {r : ρ} :
    t.get? k = some r ↔ r ∈ t.rows ∧ key r = k := by
  constructor
  · intro h
    exact ⟨List.mem_of_find?_eq_some h, by simpa using List.find?_some h⟩
  · rintro ⟨hr, rfl⟩
    cases hfind : t.get? (key r) with
    | none =>
      have := List.find?_eq_none.mp hfind r hr
      simp at this
    | some x =>
      have hx : x ∈ t.rows := List.mem_of_find?_eq_some hfind
      have hkey : key x = key r := by simpa using List.find?_some hfind
      rw [List.inj_on_of_nodup_map t.unique hx hr hkey]

theorem get?_none_iff (t : KeyedTable key) {k : κ} :
    t.get? k = none ↔ k ∉ t.rows.map key := by
  simp [get?, List.find?_eq_none]

theorem mem_rows_iff (t : KeyedTable key) {r : ρ} :
    r ∈ t.rows ↔ t.get? (key r) = some r := by
  simp [get?_some_iff]

theorem filter_eq_singleton (t : KeyedTable key) {k : κ} {r : ρ} {p : ρ → Bool}
    (hget : t.get? k = some r) (hr : p r = true) (honly : ∀ x, p x = true → key x = k) :
    t.rows.filter p = [r] := by
  obtain ⟨hmem, hid⟩ := t.get?_some_iff.mp hget
  have hnodup : (t.rows.filter p).Nodup := t.unique.of_map.sublist List.filter_sublist
  have hsame : ∀ x, x ∈ t.rows.filter p ↔ x ∈ [r] := by
    intro x
    rw [List.mem_singleton, List.mem_filter]
    constructor
    · rintro ⟨hx, hpx⟩
      exact t.eq_of_mem hx hmem ((honly x hpx).trans hid.symm)
    · rintro rfl
      exact ⟨hmem, hr⟩
  exact List.perm_singleton.mp ((List.perm_ext_iff_of_nodup hnodup (List.nodup_singleton r)).mpr hsame)

theorem get?_modify (t : KeyedTable key) (f : ρ → ρ) (hf : ∀ r, key (f r) = key r) (k : κ) :
    (t.modify f hf).get? k = (t.get? k).map f := by
  have hfun : ((fun r => decide (key r = k)) ∘ f) = fun r => decide (key r = k) := by
    funext r
    simp [hf]
  simp only [get?, modify, List.find?_map, hfun]

theorem get?_modifyAt (t : KeyedTable key) (k : κ) (f : ρ → ρ) (hf : ∀ r, key (f r) = key r)
    (j : κ) : (t.modifyAt k f hf).get? j = if j = k then (t.get? j).map f else t.get? j := by
  rw [modifyAt, get?_modify]
  cases hget : t.get? j with
  | none => simp
  | some r =>
    have hkey : key r = j := (t.get?_some_iff.mp hget).2
    by_cases hj : j = k
    · have hr : key r = k := hkey.trans hj
      rw [if_pos hj, Option.map_some, if_pos hr, Option.map_some]
    · have hr : key r ≠ k := fun h => hj (hkey.symm.trans h)
      rw [if_neg hj, Option.map_some, if_neg hr]

theorem map_modifyAt {β : Type v} (t : KeyedTable key) (k : κ) (f : ρ → ρ)
    (hf : ∀ r, key (f r) = key r) {g : ρ → β} (hg : ∀ r, g (f r) = g r) :
    (t.modifyAt k f hf).rows.map g = t.rows.map g := by
  rw [modifyAt, rows_modify, List.map_map]
  apply List.map_congr_left
  intro r _
  simp only [Function.comp]
  split
  · exact hg r
  · rfl

theorem updateWhere_some_iff {t t' : KeyedTable key} {k : κ} {p : ρ → Bool} {f : ρ → ρ}
    {hf : ∀ r, key (f r) = key r} :
    t.updateWhere k p f hf = some t' ↔
      ∃ r, t.get? k = some r ∧ p r = true ∧ t' = t.modifyAt k f hf := by
  unfold updateWhere
  cases hget : t.get? k with
  | none => simp
  | some r =>
    by_cases hp : p r = true
    · simp only [hp, if_true, Option.some.injEq]
      constructor
      · rintro rfl
        exact ⟨r, rfl, hp, rfl⟩
      · rintro ⟨_, _, _, rfl⟩
        rfl
    · simp [hp]

theorem updateReturning_some_iff {t t' : KeyedTable key} {k : κ} {p : ρ → Bool} {f : ρ → ρ}
    {hf : ∀ r, key (f r) = key r} {x : ρ} :
    t.updateReturning k p f hf = some (t', x) ↔
      ∃ r, t.get? k = some r ∧ p r = true ∧ t' = t.modifyAt k f hf ∧ x = f r := by
  unfold updateReturning
  cases hget : t.get? k with
  | none => simp
  | some r =>
    by_cases hp : p r = true
    · simp only [hp, if_true, Option.some.injEq, Prod.mk.injEq]
      constructor
      · rintro ⟨rfl, rfl⟩
        exact ⟨r, rfl, hp, rfl, rfl⟩
      · rintro ⟨_, rfl, _, rfl, rfl⟩
        exact ⟨rfl, rfl⟩
    · simp [hp]

theorem get?_append (t : KeyedTable key) (r : ρ) (h : key r ∉ t.rows.map key) (k : κ) :
    (t.append r h).get? k = if k = key r then some r else t.get? k := by
  by_cases hk : k = key r
  · rw [if_pos hk, get?_some_iff]
    exact ⟨by simp, hk.symm⟩
  · rw [if_neg hk]
    have hlast : [r].find? (fun x => decide (key x = k)) = none := by
      simp [Ne.symm hk]
    simp only [get?, rows_append, List.find?_append, hlast, Option.or_none]

theorem insert?_some_iff {t t' : KeyedTable key} {r : ρ} :
    t.insert? r = some t' ↔ ∃ h : key r ∉ t.rows.map key, t' = t.append r h := by
  unfold insert?
  split
  · rename_i hmem
    simp [hmem]
  · rename_i hnew
    constructor
    · intro h
      exact ⟨hnew, (Option.some.inj h).symm⟩
    · rintro ⟨_, rfl⟩
      rfl

theorem get?_insert? {t t' : KeyedTable key} {r : ρ} (h : t.insert? r = some t') (k : κ) :
    t'.get? k = if k = key r then some r else t.get? k := by
  obtain ⟨hnew, rfl⟩ := insert?_some_iff.mp h
  exact t.get?_append r hnew k

theorem get?_of_insert? {t t' : KeyedTable key} {r x : ρ} (h : t.insert? r = some t') {k : κ}
    (hx : t.get? k = some x) : t'.get? k = some x := by
  obtain ⟨hnew, _⟩ := insert?_some_iff.mp h
  have hne : k ≠ key r := by
    rintro rfl
    rw [t.get?_none_iff.mpr hnew] at hx
    cases hx
  rw [get?_insert? h, if_neg hne]
  exact hx

theorem get?_upsert (t : KeyedTable key) (r : ρ) (k : κ) :
    (t.upsert r).get? k = if k = key r then some r else t.get? k := by
  unfold upsert
  split
  · rename_i hmem
    rw [get?_modify]
    by_cases hk : k = key r
    · rw [if_pos hk]
      obtain ⟨x, hx, hkey⟩ := List.mem_map.mp hmem
      have hget : t.get? k = some x := t.get?_some_iff.mpr ⟨hx, hkey.trans hk.symm⟩
      simp [hget, hkey]
    · rw [if_neg hk]
      cases hget : t.get? k with
      | none => rfl
      | some x =>
        have hkey := (t.get?_some_iff.mp hget).2
        have hne : key x ≠ key r := by
          intro h
          exact hk (hkey.symm.trans h)
        simp [hne]
  · rename_i hnew
    exact t.get?_append r hnew k

theorem get?_setDefault (t : KeyedTable key) (r : ρ) (k : κ) :
    (t.setDefault r).get? k = if k = key r then some ((t.get? k).getD r) else t.get? k := by
  unfold setDefault
  split
  · rename_i hmem
    by_cases hk : k = key r
    · obtain ⟨x, hx, hkey⟩ := List.mem_map.mp hmem
      rw [if_pos hk, t.get?_some_iff.mpr ⟨hx, hkey.trans hk.symm⟩, Option.getD_some]
    · rw [if_neg hk]
  · rename_i hnew
    rw [get?_append]
    by_cases hk : k = key r
    · rw [if_pos hk, if_pos hk, hk, t.get?_none_iff.mpr hnew, Option.getD_none]
    · rw [if_neg hk, if_neg hk]

theorem isSome_get?_iff (t : KeyedTable key) {k : κ} :
    (t.get? k).isSome = true ↔ ∃ r ∈ t.rows, key r = k := by
  rw [Option.isSome_iff_exists]
  exact exists_congr fun r => t.get?_some_iff

theorem isSome_get?_setDefault (t : KeyedTable key) (r : ρ) (k : κ) :
    ((t.setDefault r).get? k).isSome = true ↔ (t.get? k).isSome = true ∨ k = key r := by
  rw [get?_setDefault]
  split
  · rename_i hk
    simp [hk]
  · rename_i hk
    simp [hk]

theorem isSome_get?_modifyAt (t : KeyedTable key) (k : κ) (f : ρ → ρ) (hf : ∀ r, key (f r) = key r)
    (k' : κ) : ((t.modifyAt k f hf).get? k').isSome = (t.get? k').isSome := by
  rw [get?_modifyAt]
  split
  · exact Option.isSome_map
  · rfl

theorem mem_upsert {t : KeyedTable key} {r x : ρ} (h : x ∈ (t.upsert r).rows) :
    x ∈ t.rows ∨ x = r := by
  have hget := (t.upsert r).mem_rows_iff.mp h
  rw [get?_upsert] at hget
  split at hget
  · exact Or.inr (Option.some.inj hget).symm
  · exact Or.inl (t.get?_some_iff.mp hget).1

theorem get?_upsert_some_iff (t : KeyedTable key) {r x : ρ} :
    (t.upsert r).get? (key x) = some x ↔ x = r ∨ key x ≠ key r ∧ t.get? (key x) = some x := by
  rw [get?_upsert]
  by_cases hkey : key x = key r
  · rw [if_pos hkey]
    constructor
    · intro h
      exact Or.inl (Option.some.inj h).symm
    · rintro (rfl | ⟨hne, _⟩)
      · rfl
      · exact absurd hkey hne
  · rw [if_neg hkey]
    constructor
    · intro h
      exact Or.inr ⟨hkey, h⟩
    · rintro (rfl | ⟨_, h⟩)
      · exact absurd rfl hkey
      · exact h

theorem upsert_of_get? (t : KeyedTable key) {r : ρ} (h : t.get? (key r) = some r) :
    t.upsert r = t := by
  have hr : r ∈ t.rows := (t.get?_some_iff.mp h).1
  have hmem : key r ∈ t.rows.map key := List.mem_map_of_mem hr
  have hrows : t.rows.map (fun x => if key x = key r then r else x) = t.rows := by
    conv_rhs => rw [← List.map_id t.rows]
    apply List.map_congr_left
    intro x hx
    by_cases hkey : key x = key r
    · simp [t.eq_of_mem hx hr hkey]
    · simp [hkey]
  unfold upsert
  rw [dif_pos hmem]
  cases t
  simp only [modify, mk.injEq]
  exact hrows

theorem get?_of_upsert_eq (t : KeyedTable key) {r : ρ} (h : t.upsert r = t) :
    t.get? (key r) = some r := by
  have hget := t.get?_upsert r (key r)
  rw [h, if_pos rfl] at hget
  exact hget

def select (t : KeyedTable key) (p : ρ → Bool) : KeyedTable key :=
  ⟨t.rows.filter p, t.unique.sublist (List.filter_sublist.map _)⟩

theorem get?_select (t : KeyedTable key) (p : ρ → Bool) (k : κ) :
    (t.select p).get? k = (t.get? k).filter p := by
  ext r
  rw [get?_some_iff, Option.filter_eq_some_iff, get?_some_iff]
  simp only [select, List.mem_filter]
  constructor
  · rintro ⟨⟨hr, hp⟩, hk⟩
    exact ⟨⟨hr, hk⟩, hp⟩
  · rintro ⟨⟨hr, hk⟩, hp⟩
    exact ⟨⟨hr, hp⟩, hk⟩

def restrict (t : KeyedTable key) (p : κ → Bool) : KeyedTable key := t.select fun r => p (key r)

theorem get?_restrict (t : KeyedTable key) {p : κ → Bool} {k : κ} (h : p k = true) :
    (t.restrict p).get? k = t.get? k := by
  rw [restrict, get?_select]
  cases hget : t.get? k with
  | none => rfl
  | some r =>
    have hkey := (t.get?_some_iff.mp hget).2
    simp [hkey, h]

omit [DecidableEq κ] in
theorem mem_keys_restrict (t : KeyedTable key) {p : κ → Bool} {k : κ} (h : p k = true) :
    k ∈ (t.restrict p).rows.map key ↔ k ∈ t.rows.map key := by
  simp only [restrict, select, List.mem_map, List.mem_filter]
  constructor
  · rintro ⟨x, ⟨hx, _⟩, hkey⟩
    exact ⟨x, hx, hkey⟩
  · rintro ⟨x, hx, rfl⟩
    exact ⟨x, ⟨hx, h⟩, rfl⟩

theorem restrict_upsert_of_pos (t : KeyedTable key) {p : κ → Bool} {r : ρ} (h : p (key r) = true) :
    (t.upsert r).restrict p = (t.restrict p).upsert r := by
  have hmem := t.mem_keys_restrict h
  unfold upsert
  by_cases hin : key r ∈ t.rows.map key
  · rw [dif_pos hin, dif_pos (hmem.mpr hin)]
    simp only [restrict, select, modify, mk.injEq, List.filter_map]
    congr 2
    funext x
    by_cases hx : key x = key r <;> simp [hx]
  · rw [dif_neg hin, dif_neg (mt hmem.mp hin)]
    simp [restrict, select, append, h]

theorem restrict_upsert_of_neg (t : KeyedTable key) {p : κ → Bool} {r : ρ}
    (h : p (key r) = false) : (t.upsert r).restrict p = t.restrict p := by
  unfold upsert
  by_cases hin : key r ∈ t.rows.map key
  · rw [dif_pos hin]
    simp only [restrict, select, modify, mk.injEq, List.filter_map]
    have hsame : ((fun x => p (key x)) ∘ fun x => if key x = key r then r else x) =
        fun x => p (key x) := by
      funext x
      by_cases hx : key x = key r <;> simp [hx]
    rw [hsame]
    refine (List.map_congr_left fun x hx => ?_).trans (List.map_id _)
    have hne : key x ≠ key r := by
      intro heq
      have hkept := (List.mem_filter.mp hx).2
      rw [heq, h] at hkept
      cases hkept
    simp [hne]
  · rw [dif_neg hin]
    simp [restrict, select, append, h]

theorem restrict_modifyAt (t : KeyedTable key) (p : κ → Bool) (k : κ) (f : ρ → ρ)
    (hf : ∀ r, key (f r) = key r) :
    (t.modifyAt k f hf).restrict p = (t.restrict p).modifyAt k f hf := by
  have hsame : ((fun r => p (key r)) ∘ fun r => if key r = k then f r else r) =
      fun r => p (key r) := by
    funext r
    by_cases hr : key r = k
    · simp [hr, hf]
    · simp [hr]
  simp only [restrict, select, modifyAt, modify, List.filter_map, hsame]

theorem restrict_modifyAt_of_neg (t : KeyedTable key) {p : κ → Bool} {k : κ} (h : p k = false)
    (f : ρ → ρ) (hf : ∀ r, key (f r) = key r) : (t.modifyAt k f hf).restrict p = t.restrict p := by
  rw [restrict_modifyAt]
  simp only [restrict, select, modifyAt, modify, mk.injEq]
  refine (List.map_congr_left fun r hr => ?_).trans (List.map_id _)
  have hne : key r ≠ k := by
    rintro rfl
    rw [(List.mem_filter.mp hr).2] at h
    cases h
  simp [hne]

theorem restrict_insert?_of_pos (t : KeyedTable key) {p : κ → Bool} {r : ρ}
    (h : p (key r) = true) : (t.restrict p).insert? r = (t.insert? r).map fun t' => t'.restrict p := by
  have hmem := t.mem_keys_restrict h
  unfold insert?
  by_cases hin : key r ∈ t.rows.map key
  · rw [dif_pos hin, dif_pos (hmem.mpr hin)]
    rfl
  · rw [dif_neg hin, dif_neg (mt hmem.mp hin)]
    simp [restrict, select, append, h]

theorem restrict_insert?_of_neg {t t' : KeyedTable key} {p : κ → Bool} {r : ρ}
    (h : p (key r) = false) (hinsert : t.insert? r = some t') : t'.restrict p = t.restrict p := by
  obtain ⟨_, rfl⟩ := insert?_some_iff.mp hinsert
  simp [restrict, select, append, h]

theorem updateReturning_restrict (t : KeyedTable key) {q : κ → Bool} {k : κ} (h : q k = true)
    (p : ρ → Bool) (f : ρ → ρ) (hf : ∀ r, key (f r) = key r) :
    (t.restrict q).updateReturning k p f hf =
      (t.updateReturning k p f hf).map fun returned => (returned.1.restrict q, returned.2) := by
  unfold updateReturning
  rw [t.get?_restrict h]
  cases t.get? k with
  | none => rfl
  | some r =>
    cases hp : p r with
    | false => simp [hp]
    | true => simp [hp, restrict_modifyAt]

end KeyedTable
