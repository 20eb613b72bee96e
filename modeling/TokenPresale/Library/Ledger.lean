import Mathlib.Data.Finmap
import Mathlib.Algebra.BigOperators.Group.Finset.Basic
import Mathlib.Algebra.BigOperators.Ring.Finset
import Mathlib.Algebra.Order.BigOperators.Group.Finset

/-!
# Sums over a finite map

A ledger is a finite map from keys to entries. `total f m` adds the number `f` reads off
each entry of `m`; with an indicator for `f` it counts entries (`count_eq_total`). The lemmas
say what opening a new entry and rewriting an existing one do to a total, and how totals
compare.
-/

set_option autoImplicit false

namespace TokenPresale.Library

open Finset

/-- A finite map from `K` to `V`. -/
abbrev Ledger (K V : Type) := Finmap fun _ : K => V

namespace Ledger

variable {K V : Type} [DecidableEq K]

/-- The number `f` reads off the entry at `k`, zero when there is none. -/
def reading (f : V → ℕ) (m : Ledger K V) (k : K) : ℕ := (m.lookup k).elim 0 f

/-- The sum of `f` over the entries of the ledger. -/
def total (f : V → ℕ) (m : Ledger K V) : ℕ := ∑ k ∈ m.keys, m.reading f k

/-- The reading at a key is the field of the record stored there. -/
theorem reading_of_lookup {f : V → ℕ} {m : Ledger K V} {k : K} {v : V}
    (h : m.lookup k = some v) : m.reading f k = f v := by
  simp [reading, h]

/-- Storing a record sets the reading at its own key. -/
theorem reading_insert_self (f : V → ℕ) (m : Ledger K V) (k : K) (v : V) :
    reading f (m.insert k v) k = f v := by
  simp [reading]

/-- Storing a record leaves the readings at other keys alone. -/
theorem reading_insert_of_ne (f : V → ℕ) (m : Ledger K V) {k k' : K} (v : V) (h : k' ≠ k) :
    reading f (m.insert k v) k' = m.reading f k' := by
  simp [reading, Finmap.lookup_insert_of_ne m h]

/-- Storing a record updates the readings at one key. -/
theorem reading_insert (f : V → ℕ) (m : Ledger K V) (k : K) (v : V) :
    reading f (m.insert k v) = Function.update (m.reading f) k (f v) := by
  funext k'
  rcases eq_or_ne k' k with rfl | h
  · simp [reading_insert_self]
  · simp [reading_insert_of_ne f m v h, h]

/-- Rewriting an entry without changing what is read off it changes no reading. -/
theorem reading_insert_same (f : V → ℕ) {m : Ledger K V} {k : K} {v : V} (v' : V)
    (h : m.lookup k = some v) (hf : f v' = f v) : reading f (m.insert k v') = m.reading f := by
  rw [reading_insert, hf, ← reading_of_lookup (f := f) h, Function.update_eq_self]

/-- A new record whose field is zero changes no reading. -/
theorem reading_insert_new (f : V → ℕ) {m : Ledger K V} {k : K} (v : V)
    (h : m.lookup k = none) (hf : f v = 0) : reading f (m.insert k v) = m.reading f := by
  have hk : m.reading f k = 0 := by simp [reading, h]
  rw [reading_insert, hf, ← hk, Function.update_eq_self]

/-- Storing a record adds its key. -/
theorem keys_insert (m : Ledger K V) (k : K) (v : V) :
    Finmap.keys (m.insert k v) = insert k m.keys := by
  ext k'
  simp [Finmap.mem_keys, Finmap.mem_insert]

/-- The key of a stored record is a key of the ledger. -/
theorem mem_keys_of_lookup {m : Ledger K V} {k : K} {v : V} (h : m.lookup k = some v) :
    k ∈ m.keys :=
  Finmap.mem_keys.mpr (Finmap.mem_of_lookup_eq_some h)

/-- Overwriting a record adds no key. -/
theorem keys_insert_of_lookup {m : Ledger K V} {k : K} {v : V} (v' : V)
    (h : m.lookup k = some v) : Finmap.keys (m.insert k v') = m.keys := by
  rw [keys_insert, insert_eq_of_mem (mem_keys_of_lookup h)]

/-- A key without a record is not a key of the ledger. -/
theorem notMem_keys_of_lookup {m : Ledger K V} {k : K} (h : m.lookup k = none) :
    k ∉ m.keys := by
  rw [Finmap.mem_keys, ← Finmap.lookup_eq_none]
  exact h

/-- A property of all entries survives the writing of an entry that has it. -/
theorem forall_lookup_insert {P : K → V → Prop} {m : Ledger K V} {k : K} {v : V}
    (h : ∀ k' v', m.lookup k' = some v' → P k' v') (hk : P k v) :
    ∀ k' v', Finmap.lookup k' (m.insert k v) = some v' → P k' v' := by
  intro k' v' hv
  rcases eq_or_ne k' k with rfl | hne
  · rw [Finmap.lookup_insert] at hv
    obtain rfl := Option.some_injective _ hv
    exact hk
  · rw [Finmap.lookup_insert_of_ne m hne] at hv
    exact h k' v' hv

/-- Rewriting an entry leaves every entry related to what it was, if it does so with this one. -/
theorem exists_lookup_insert {R : V → V → Prop} (hrefl : ∀ v, R v v) {m : Ledger K V} {k : K}
    {v v' : V} (h : m.lookup k = some v) (hv : R v v') {k' : K} {w : V}
    (hw : m.lookup k' = some w) : ∃ w', Finmap.lookup k' (m.insert k v') = some w' ∧ R w w' := by
  rcases eq_or_ne k' k with rfl | hne
  · obtain rfl : v = w := Option.some_injective _ (h.symm.trans hw)
    exact ⟨v', Finmap.lookup_insert _, hv⟩
  · exact ⟨w, by rw [Finmap.lookup_insert_of_ne m hne, hw], hrefl w⟩

/-- Rewriting an entry keeps what `f` says of every entry, if it keeps it of this one. -/
theorem map_lookup_insert_same {β : Type} (f : V → β) {m : Ledger K V} {k : K} {v : V} (v' : V)
    (h : m.lookup k = some v) (hf : f v' = f v) (k' : K) :
    (Finmap.lookup k' (m.insert k v')).map f = (m.lookup k').map f := by
  rcases eq_or_ne k' k with rfl | hne
  · rw [Finmap.lookup_insert, h, Option.map_some, Option.map_some, hf]
  · rw [Finmap.lookup_insert_of_ne m hne]

/-- The total of an empty ledger is zero. -/
@[simp] theorem total_empty (f : V → ℕ) : total f (∅ : Ledger K V) = 0 := by
  simp [total]

/-- A new record adds its field to the total. -/
theorem total_insert_new (f : V → ℕ) {m : Ledger K V} {k : K} (v : V)
    (h : m.lookup k = none) : total f (m.insert k v) = m.total f + f v := by
  have hk := notMem_keys_of_lookup h
  have hrest : ∑ k' ∈ m.keys, reading f (m.insert k v) k' = ∑ k' ∈ m.keys, m.reading f k' :=
    sum_congr rfl fun k' hk' => reading_insert_of_ne f m v fun e => hk (e ▸ hk')
  rw [total, total, keys_insert, sum_insert hk, reading_insert_self, hrest, add_comm]

/-- Rewriting an entry trades what it carried for what it now carries. -/
theorem total_insert_of_lookup (f : V → ℕ) {m : Ledger K V} {k : K} {v : V} (v' : V)
    (h : m.lookup k = some v) : total f (m.insert k v') + f v = m.total f + f v' := by
  have hk := mem_keys_of_lookup h
  have hrest : ∑ k' ∈ m.keys.erase k, reading f (m.insert k v') k' =
      ∑ k' ∈ m.keys.erase k, m.reading f k' :=
    sum_congr rfl fun k' hk' => reading_insert_of_ne f m v' (ne_of_mem_erase hk')
  rw [total, total, keys_insert_of_lookup v' h, ← add_sum_erase _ _ hk,
    ← add_sum_erase m.keys (m.reading f) hk, reading_insert_self, hrest, reading_of_lookup h]
  omega

/-- A record overwritten with the same field leaves the total alone. -/
theorem total_insert_same (f : V → ℕ) {m : Ledger K V} {k : K} {v : V} (v' : V)
    (h : m.lookup k = some v) (hf : f v' = f v) : total f (m.insert k v') = m.total f := by
  have := total_insert_of_lookup f v' h
  omega

/-- The field of a stored record is at most the total. -/
theorem le_total (f : V → ℕ) {m : Ledger K V} {k : K} {v : V} (h : m.lookup k = some v) :
    f v ≤ m.total f := by
  rw [← reading_of_lookup (f := f) h]
  exact single_le_sum (fun _ _ => Nat.zero_le _) (mem_keys_of_lookup h)

/-! ## Counting entries -/

/-- The number of entries that meet `c`. -/
def count (c : V → Bool) (m : Ledger K V) : ℕ :=
  (m.keys.filter fun k => ((m.lookup k).elim false c) = true).card

/-- Counting records is a total of ones and zeros. -/
theorem count_eq_total (c : V → Bool) (m : Ledger K V) :
    m.count c = m.total fun v => (c v).toNat := by
  unfold count total
  rw [card_filter]
  apply sum_congr rfl
  intro k _
  unfold reading
  cases m.lookup k with
  | none => rfl
  | some v => cases hc : c v <;> simp [hc]

end Ledger

end TokenPresale.Library
