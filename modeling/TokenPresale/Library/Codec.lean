import Mathlib.Algebra.Order.Ring.Nat
import Mathlib.Data.List.Basic
import Mathlib.Tactic.Common

/-!
# Codecs of fixed size

A codec writes the values of a type as byte strings of one length and reads them back. It may
refuse values that do not fit (`Valid`) and strings that no value is written as; between the
valid values and the strings it accepts it is one to one. `bytes w` writes a number in `w`
little-endian bytes, `bool` a truth value in one byte, `pair` one value after another, `iso`
carries a codec over to a structure with the same fields, and `retract` to those values of a
type that have a code.

A record is stored behind a tag: `store` writes it at the front of an account's data, `fetch`
reads it and ignores what comes after it.
-/

set_option autoImplicit false

namespace TokenPresale.Library

/-! ## Little-endian numbers -/

/-- The lowest `w` bytes of `n`, the lowest first. -/
def leBytes : ℕ → ℕ → List UInt8
  | 0, _ => []
  | w + 1, n => UInt8.ofNat (n % 256) :: leBytes w (n / 256)

/-- The number that a byte string stands for, the lowest byte first. -/
def ofLeBytes : List UInt8 → ℕ
  | [] => 0
  | b :: bs => b.toNat + 256 * ofLeBytes bs

/-- A number written in `w` bytes takes `w` bytes. -/
@[simp] theorem length_leBytes (w n : ℕ) : (leBytes w n).length = w := by
  induction w generalizing n with
  | zero => rfl
  | succ w ih => simp [leBytes, ih]

/-- The number that a list of bytes stands for fits in that many bytes. -/
theorem ofLeBytes_lt (bs : List UInt8) : ofLeBytes bs < 256 ^ bs.length := by
  induction bs with
  | nil => exact Nat.one_pos
  | cons b bs ih =>
    have hb : b.toNat < 256 := b.toNat_lt
    rw [ofLeBytes, List.length_cons, Nat.pow_succ]
    omega

/-- A number that fits in `w` bytes is read back from the bytes it was written to. -/
theorem ofLeBytes_leBytes {w n : ℕ} (h : n < 256 ^ w) : ofLeBytes (leBytes w n) = n := by
  induction w generalizing n with
  | zero =>
    obtain rfl : n = 0 := Nat.lt_one_iff.mp h
    rfl
  | succ w ih =>
    have hdiv : n / 256 < 256 ^ w := by
      rw [Nat.pow_succ] at h
      omega
    have hlow : (UInt8.ofNat (n % 256)).toNat = n % 256 := by simp
    rw [leBytes, ofLeBytes, ih hdiv, hlow]
    exact Nat.mod_add_div n 256

/-- A list of bytes is written back from the number it was read as. -/
theorem leBytes_ofLeBytes (bs : List UInt8) : leBytes bs.length (ofLeBytes bs) = bs := by
  induction bs with
  | nil => rfl
  | cons b bs ih =>
    have hb : b.toNat < 256 := b.toNat_lt
    have hmod : (b.toNat + 256 * ofLeBytes bs) % 256 = b.toNat := by omega
    have hdiv : (b.toNat + 256 * ofLeBytes bs) / 256 = ofLeBytes bs := by omega
    rw [List.length_cons, ofLeBytes, leBytes, hmod, hdiv, ih, UInt8.ofNat_toNat]

/-! ## Codecs -/

/-- A codec of `α`: strings of `size` bytes, one for each valid value. -/
structure Codec (α : Type) where
  size : ℕ
  Valid : α → Prop
  encode : α → List UInt8
  decode : List UInt8 → Option α
  length_encode : ∀ a, (encode a).length = size
  decode_encode : ∀ a, Valid a → decode (encode a) = some a
  encode_decode : ∀ b a, decode b = some a → Valid a ∧ encode a = b

namespace Codec

variable {α β : Type}

/-- A number in `w` bytes. -/
def bytes (w : ℕ) : Codec ℕ where
  size := w
  Valid n := n < 256 ^ w
  encode := leBytes w
  decode b := if b.length = w then some (ofLeBytes b) else none
  length_encode := length_leBytes w
  decode_encode n h := by
    rw [if_pos (length_leBytes w n), ofLeBytes_leBytes h]
  encode_decode b n h := by
    split_ifs at h with hlen
    obtain rfl := Option.some_injective _ h
    subst hlen
    exact ⟨ofLeBytes_lt b, leBytes_ofLeBytes b⟩

/-- A truth value in one byte; every byte but zero and one is refused. -/
def bool : Codec Bool where
  size := 1
  Valid _ := True
  encode t := [if t then 1 else 0]
  decode
    | [b] => if b = 0 then some false else if b = 1 then some true else none
    | _ => none
  length_encode _ := rfl
  decode_encode t _ := by cases t <;> rfl
  encode_decode b t h := by
    match b, h with
    | [b], h =>
      simp only at h
      split_ifs at h with hzero hone
      · obtain rfl := Option.some_injective _ h
        exact ⟨trivial, by simp [hzero]⟩
      · obtain rfl := Option.some_injective _ h
        exact ⟨trivial, by simp [hone]⟩

/-- One value after another. -/
def pair (c : Codec α) (d : Codec β) : Codec (α × β) where
  size := c.size + d.size
  Valid p := c.Valid p.1 ∧ d.Valid p.2
  encode p := c.encode p.1 ++ d.encode p.2
  decode b := (c.decode (b.take c.size)).bind fun a =>
    (d.decode (b.drop c.size)).map fun x => (a, x)
  length_encode p := by rw [List.length_append, c.length_encode, d.length_encode]
  decode_encode := by
    rintro ⟨a, x⟩ ⟨ha, hx⟩
    have htake : (c.encode a ++ d.encode x).take c.size = c.encode a := by
      rw [← c.length_encode a, List.take_left]
    have hdrop : (c.encode a ++ d.encode x).drop c.size = d.encode x := by
      rw [← c.length_encode a, List.drop_left]
    rw [htake, hdrop, c.decode_encode a ha, d.decode_encode x hx]
    rfl
  encode_decode := by
    rintro b ⟨a, x⟩ h
    simp only [Option.bind_eq_some_iff, Option.map_eq_some_iff, Prod.mk.injEq] at h
    obtain ⟨a', ha, x', hx, rfl, rfl⟩ := h
    obtain ⟨hvalid, henc⟩ := c.encode_decode _ _ ha
    obtain ⟨hvalid', henc'⟩ := d.encode_decode _ _ hx
    exact ⟨⟨hvalid, hvalid'⟩, by rw [henc, henc', List.take_append_drop]⟩

/-- The codec of a type whose values correspond one to one to those of `α`. -/
def iso (c : Codec α) (f : α → β) (g : β → α) (left : ∀ b, f (g b) = b)
    (right : ∀ a, g (f a) = a) : Codec β where
  size := c.size
  Valid b := c.Valid (g b)
  encode b := c.encode (g b)
  decode s := (c.decode s).map f
  length_encode b := c.length_encode (g b)
  decode_encode b h := by rw [c.decode_encode _ h, Option.map_some, left]
  encode_decode s b h := by
    obtain ⟨a, ha, rfl⟩ := Option.map_eq_some_iff.mp h
    rw [right]
    exact c.encode_decode s a ha

/-- The codec of those values of `β` that `f` reads back from what `g` makes of them. -/
def retract [DecidableEq α] (c : Codec α) (f : α → β) (g : β → α) : Codec β where
  size := c.size
  Valid b := f (g b) = b ∧ c.Valid (g b)
  encode b := c.encode (g b)
  decode s := (c.decode s).bind fun a => if g (f a) = a then some (f a) else none
  length_encode b := c.length_encode (g b)
  decode_encode b h := by rw [c.decode_encode _ h.2, Option.bind_some, h.1, if_pos rfl]
  encode_decode s b h := by
    obtain ⟨a, ha, hback⟩ := Option.bind_eq_some_iff.mp h
    split_ifs at hback with hsame
    obtain rfl := Option.some_injective _ hback
    obtain ⟨hvalid, henc⟩ := c.encode_decode s a ha
    rw [hsame]
    exact ⟨⟨rfl, hvalid⟩, henc⟩

/-! ## Records behind a tag -/

/-- Read the record behind `tag` at the front of `data`. -/
def fetch (c : Codec α) (tag data : List UInt8) : Option α :=
  if data.take tag.length = tag then c.decode ((data.drop tag.length).take c.size) else none

/-- The data of an account after `a` is written behind `tag` at the front of it; there is none
when it does not have the room. -/
def store (c : Codec α) (tag : List UInt8) (a : α) (data : List UInt8) : Option (List UInt8) :=
  if tag.length + c.size ≤ data.length then
    some (tag ++ c.encode a ++ data.drop (tag.length + c.size))
  else none

/-- A record written behind its tag is fetched back, whatever bytes follow it. -/
theorem fetch_append (c : Codec α) (tag : List UInt8) {a : α} (h : c.Valid a)
    (rest : List UInt8) : c.fetch tag (tag ++ c.encode a ++ rest) = some a := by
  have htake : (c.encode a ++ rest).take c.size = c.encode a := by
    rw [← c.length_encode a, List.take_left]
  rw [fetch, List.append_assoc, List.take_left, if_pos rfl, List.drop_left, htake,
    c.decode_encode a h]

/-- A record that fills the data to the last byte replaces it. -/
theorem store_of_length (c : Codec α) {tag : List UInt8} {a : α} {data : List UInt8}
    (h : data.length = tag.length + c.size) : c.store tag a data = some (tag ++ c.encode a) := by
  rw [store, if_pos h.ge, ← h, List.drop_length, List.append_nil]

/-- What was stored is what is fetched. -/
theorem fetch_bytes (c : Codec α) (tag : List UInt8) {a : α} (h : c.Valid a) :
    c.fetch tag (tag ++ c.encode a) = some a := by
  have happend := c.fetch_append tag h []
  rwa [List.append_nil] at happend

/-- Data that does not start with the tag holds no record. -/
theorem fetch_eq_none (c : Codec α) {tag data : List UInt8} (h : data.take tag.length ≠ tag) :
    c.fetch tag data = none :=
  if_neg h

/-- Data behind one tag is not read as a record behind another tag of the same length. -/
theorem fetch_of_tag_ne (c : Codec α) {tag tag' : List UInt8} (rest : List UInt8)
    (hlen : tag'.length = tag.length) (hne : tag ≠ tag') : c.fetch tag' (tag ++ rest) = none := by
  apply c.fetch_eq_none
  rw [hlen, List.take_left]
  exact hne

end Codec

end TokenPresale.Library
