import Mathlib.Algebra.Group.Nat.Defs
import Mathlib.Data.List.Basic
import Mathlib.Data.List.Nodup

/-! Identifiers and instants shared by every part of the model. -/

set_option autoImplicit false

namespace GroundGraph

/-- `uuid.UUID`: a 128-bit value. Where freshness of `uuid4()` matters it is a
hypothesis about the values a call draws, never a property of the type. -/
abbrev UUID := BitVec 128

instance decidableMemIds (id : UUID) (ids : List UUID) : Decidable (id ∈ ids) :=
  inferInstance

instance decidableMemIdPairs (p : UUID × UUID) (ps : List (UUID × UUID)) : Decidable (p ∈ ps) :=
  inferInstance

/-- A timezone-aware `datetime`, in microseconds since the epoch. -/
abbrev Instant := Int

theorem absent_bounds : ∀ f t : Instant, (none : Option Instant) = some f →
    (none : Option Instant) = some t → f < t := by
  simp

def seconds (n : Nat) : Instant := 1000000 * (n : Int)

/-- Values drawn one after the other from `uuid4()` by one call. -/
abbrev UuidSource := Nat → UUID

def UuidSource.draws (uuid4 : UuidSource) (n : Nat) : List UUID := (List.range n).map uuid4

/-- The first `n` draws are pairwise distinct. -/
def UuidSource.FreshUpTo (uuid4 : UuidSource) (n : Nat) : Prop := (uuid4.draws n).Nodup

instance (uuid4 : UuidSource) (n : Nat) : Decidable (uuid4.FreshUpTo n) :=
  inferInstanceAs (Decidable (List.Nodup _))

theorem UuidSource.FreshUpTo.inj {uuid4 : UuidSource} {n i j : Nat} (h : uuid4.FreshUpTo n)
    (hi : i < n) (hj : j < n) (hij : uuid4 i = uuid4 j) : i = j :=
  List.inj_on_of_nodup_map h (by simpa using hi) (by simpa using hj) hij

def hexDigit (n : Nat) : Char :=
  if n < 10 then Char.ofNat (48 + n) else Char.ofNat (87 + n)

theorem hexDigit_injective : ∀ m < 16, ∀ n < 16, hexDigit m = hexDigit n → m = n := by
  decide

/-- The `k` low hexadecimal digits, most significant first. -/
def hexDigits : Nat → Nat → List Char
  | 0, _ => []
  | k + 1, n => hexDigits k (n / 16) ++ [hexDigit (n % 16)]

@[simp] theorem hexDigits_length (k n : Nat) : (hexDigits k n).length = k := by
  induction k generalizing n with
  | zero => rfl
  | succ k ih => simp [hexDigits, ih]

theorem hexDigits_injective (k : Nat) {m n : Nat} (hm : m < 16 ^ k) (hn : n < 16 ^ k)
    (h : hexDigits k m = hexDigits k n) : m = n := by
  induction k generalizing m n with
  | zero =>
    simp only [Nat.pow_zero, Nat.lt_one_iff] at hm hn
    omega
  | succ k ih =>
    have hlen : (hexDigits k (m / 16)).length = (hexDigits k (n / 16)).length := by simp
    obtain ⟨hhigh, hlow⟩ := List.append_inj h hlen
    have hpow : 16 ^ (k + 1) = 16 ^ k * 16 := Nat.pow_succ 16 k
    have hq : m / 16 = n / 16 := ih (by omega) (by omega) hhigh
    have hr : m % 16 = n % 16 :=
      hexDigit_injective _ (Nat.mod_lt _ (by omega)) _ (Nat.mod_lt _ (by omega))
        (by simpa using hlow)
    omega

/-- `str(uuid)`: 32 hexadecimal digits in groups of 8, 4, 4, 4 and 12. -/
def strUuid (u : UUID) : List Char :=
  let hex := hexDigits 32 u.toNat
  hex.take 8 ++ '-' :: ((hex.drop 8).take 4 ++ '-' :: ((hex.drop 12).take 4 ++
    '-' :: ((hex.drop 16).take 4 ++ '-' :: hex.drop 20)))

theorem group_inj {n : Nat} {x y xs ys : List Char}
    (h : x.take n ++ '-' :: xs = y.take n ++ '-' :: ys) (hx : n ≤ x.length) (hy : n ≤ y.length) :
    x.take n = y.take n ∧ xs = ys := by
  obtain ⟨hl, hr⟩ := List.append_inj h (by simp [hx, hy])
  exact ⟨hl, (List.cons.inj hr).2⟩

theorem take_drop_inj {n : Nat} {x y : List Char} (ht : x.take n = y.take n)
    (hd : x.drop n = y.drop n) : x = y := by
  rw [← List.take_append_drop n x, ht, hd, List.take_append_drop]

theorem strUuid_injective {u v : UUID} (h : strUuid u = strUuid v) : u = v := by
  simp only [strUuid] at h
  generalize hx : hexDigits 32 u.toNat = x at h
  generalize hy : hexDigits 32 v.toNat = y at h
  have lx : x.length = 32 := by simp [← hx]
  have ly : y.length = 32 := by simp [← hy]
  obtain ⟨h8, h⟩ := group_inj h (by omega) (by omega)
  obtain ⟨h12, h⟩ := group_inj h (by simp; omega) (by simp; omega)
  obtain ⟨h16, h⟩ := group_inj h (by simp; omega) (by simp; omega)
  obtain ⟨h20, h⟩ := group_inj h (by simp; omega) (by simp; omega)
  have hxy : x = y := by
    refine take_drop_inj h8 (take_drop_inj h12 (take_drop_inj (n := 4) ?_ (take_drop_inj (n := 4) ?_ ?_)))
    · simpa [List.drop_drop] using h16
    · simpa [List.drop_drop] using h20
    · simpa [List.drop_drop] using h
  have hval : u.toNat = v.toNat :=
    hexDigits_injective 32 u.isLt v.isLt (by rw [hx, hy, hxy])
  exact BitVec.eq_of_toNat_eq hval

def uuidString (u : UUID) : String := String.ofList (strUuid u)

theorem uuidString_injective {u v : UUID} (h : uuidString u = uuidString v) : u = v :=
  strUuid_injective (String.ofList_injective h)

end GroundGraph
