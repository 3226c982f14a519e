import Mathlib.Algebra.Group.Nat.Defs
import Mathlib.Data.List.Basic

/-! Numbers in a base with a fixed number of digits, most significant first, and texts made
of such numbers.
-/

set_option autoImplicit false

namespace FixedDigits

def toDigits (base : Nat) : Nat → Nat → List Nat
  | 0, _ => []
  | k + 1, n => toDigits base k (n / base) ++ [n % base]

def ofDigits (base : Nat) (ds : List Nat) : Nat := ds.foldl (fun acc d => base * acc + d) 0

@[simp] theorem length_toDigits (base k n : Nat) : (toDigits base k n).length = k := by
  induction k generalizing n with
  | zero => rfl
  | succ k ih => simp [toDigits, ih]

theorem lt_of_mem_toDigits {base : Nat} (hbase : 0 < base) {k n d : Nat}
    (h : d ∈ toDigits base k n) : d < base := by
  induction k generalizing n with
  | zero => simp [toDigits] at h
  | succ k ih =>
    rcases List.mem_append.mp h with h | h
    · exact ih h
    · rw [List.mem_singleton.mp h]
      exact Nat.mod_lt n hbase

theorem ofDigits_toDigits {base k n : Nat} (h : n < base ^ k) :
    ofDigits base (toDigits base k n) = n := by
  induction k generalizing n with
  | zero =>
    rw [Nat.pow_zero, Nat.lt_one_iff] at h
    rw [h]
    rfl
  | succ k ih =>
    have hdiv : n / base < base ^ k := Nat.div_lt_of_lt_mul (by rwa [Nat.pow_succ'] at h)
    simp only [ofDigits, toDigits, List.foldl_append, List.foldl_cons, List.foldl_nil] at ih ⊢
    rw [ih hdiv]
    exact Nat.div_add_mod n base

variable {char : Nat → Char} {value : Char → Option Nat} {base : Nat}

theorem mapM_value (hvalue : ∀ d < base, value (char d) = some d) (hbase : 0 < base) (k n : Nat) :
    ((toDigits base k n).map char).mapM value = some (toDigits base k n) := by
  have hall : ∀ ds : List Nat, (∀ d ∈ ds, d < base) → (ds.map char).mapM value = some ds := by
    intro ds
    induction ds with
    | nil => intro _; rfl
    | cons d ds ih =>
      intro hlt
      have hd := hvalue d (hlt d List.mem_cons_self)
      have hds := ih fun d hd => hlt d (List.mem_cons_of_mem _ hd)
      simp [List.mapM_cons, hd, hds]
  exact hall _ fun d hd => lt_of_mem_toDigits hbase hd

/-- The number that the next `k` characters of a text are, and the rest. -/
def read (value : Char → Option Nat) (base k : Nat) (text : List Char) :
    Option (Nat × List Char) :=
  if k ≤ text.length then
    ((text.take k).mapM value).map fun ds => (ofDigits base ds, text.drop k)
  else none

theorem read_append (hvalue : ∀ d < base, value (char d) = some d) (hbase : 0 < base)
    {k n : Nat} (h : n < base ^ k) (rest : List Char) :
    read value base k ((toDigits base k n).map char ++ rest) = some (n, rest) := by
  have hlen : ((toDigits base k n).map char).length = k := by simp
  have hle : k ≤ ((toDigits base k n).map char ++ rest).length := by
    rw [List.length_append, hlen]
    exact Nat.le_add_right k _
  rw [read, if_pos hle, List.take_left' hlen, List.drop_left' hlen, mapM_value hvalue hbase, Option.map_some,
    ofDigits_toDigits h]

end FixedDigits
