import TokenPresale.Library.Codec
import TokenPresale.Model.Account

/-!
# How the records are stored

The three records of `state.rs` as bytes. `#[account]` writes a record as the discriminator of
its type, the first eight bytes of the SHA-256 digest of `account:` and the type's name,
followed by its fields in the order of their declaration, each in its own width. The bytes of
an address are a parameter: `KeyCodec` writes those addresses that it can in 32 bytes.
-/

set_option autoImplicit false

namespace TokenPresale.Model

open TokenPresale.Library

/-- The 32 bytes of an address. -/
structure KeyCodec extends Codec Pubkey where
  size_eq : size = 32

/-! ## Discriminators -/

/-- The discriminator of `account:AdminAccount`.
SRC: state.rs:19 -/
def adminDiscriminator : List UInt8 := [153, 119, 180, 178, 43, 66, 235, 148]

/-- The discriminator of `account:UserAccount`.
SRC: state.rs:24 -/
def userDiscriminator : List UInt8 := [211, 33, 136, 16, 186, 110, 242, 127]

/-- The discriminator of `account:PresaleAccount`.
SRC: state.rs:34 -/
def presaleDiscriminator : List UInt8 := [199, 34, 38, 30, 209, 182, 217, 206]

/-! ## Layouts -/

/-- A byte. -/
def u8 : Codec ℕ := .bytes 1

/-- A little-endian number of four bytes. -/
def u32 : Codec ℕ := .bytes 4

/-- A little-endian number of eight bytes. -/
def u64 : Codec ℕ := .bytes 8

/-- SRC: state.rs:19-22 -/
def adminLayout (keys : KeyCodec) : Codec AdminAccount :=
  .iso keys.toCodec AdminAccount.mk AdminAccount.superAdmin (fun _ => rfl) (fun _ => rfl)

/-- SRC: state.rs:24-32 -/
def userLayout (keys : KeyCodec) : Codec UserAccount :=
  .iso (.pair .bool (.pair u64 (.pair u64 (.pair u8 keys.toCodec))))
    (fun t => ⟨t.1, t.2.1, t.2.2.1, t.2.2.2.1, t.2.2.2.2⟩)
    (fun u => (u.isWhitelisted, u.userBuyAmount, u.userSolContributed, u.isClaimed, u.publicKey))
    (fun _ => rfl) (fun _ => rfl)

/-- SRC: state.rs:34-55 -/
def presaleLayout : Codec PresaleAccount :=
  .iso
    (.pair u32 (.pair u64 (.pair u32 (.pair u64 (.pair u64 (.pair u64 (.pair u64 (.pair u32
      (.pair u64 (.pair u64 (.pair u64 (.pair u8 (.pair u8 (.pair u64 (.pair u32
        (.pair u8 u8))))))))))))))))
    (fun (teamPercent, presaleRate, totalWhitelistedWallets, userMaxBuy, startTime, endTime,
        presaleDuration, totalParticipants, totalSolAmount, totalTokenRemained,
        totalPresaleToken, isFinalized, isCancelled, softCap, tokenAllocation, isHardcapped,
        isSoftcapped) =>
      { teamPercent, presaleRate, totalWhitelistedWallets, userMaxBuy, startTime, endTime,
        presaleDuration, totalParticipants, totalSolAmount, totalTokenRemained,
        totalPresaleToken, isFinalized, isCancelled, softCap, tokenAllocation, isHardcapped,
        isSoftcapped })
    (fun p => (p.teamPercent, p.presaleRate, p.totalWhitelistedWallets, p.userMaxBuy,
      p.startTime, p.endTime, p.presaleDuration, p.totalParticipants, p.totalSolAmount,
      p.totalTokenRemained, p.totalPresaleToken, p.isFinalized, p.isCancelled, p.softCap,
      p.tokenAllocation, p.isHardcapped, p.isSoftcapped))
    (fun _ => rfl) (fun _ => rfl)

/-- The sizes that the program allocates are exactly those of its records.
SRC: state.rs:14-18 -/
theorem adminLayout_size (keys : KeyCodec) :
    adminDiscriminator.length + (adminLayout keys).size = adminAccountSize := by
  show 8 + keys.size = adminAccountSize
  rw [keys.size_eq]
  rfl

/-- The layout of a user record fills exactly the space the source reserves for it. -/
theorem userLayout_size (keys : KeyCodec) :
    userDiscriminator.length + (userLayout keys).size = userAccountSize := by
  show 8 + (1 + (8 + (8 + (1 + keys.size)))) = userAccountSize
  rw [keys.size_eq]
  rfl

/-- The layout of the presale record fills exactly the space the source reserves for it. -/
theorem presaleLayout_size :
    presaleDiscriminator.length + presaleLayout.size = presaleAccountSize := rfl

/-! ## Ranges -/

/-- Every field of a presale record is in the range of its type. -/
structure PresaleAccount.InRange (p : PresaleAccount) : Prop where
  teamPercent : p.teamPercent < 2 ^ 32
  presaleRate : p.presaleRate < 2 ^ 64
  totalWhitelistedWallets : p.totalWhitelistedWallets < 2 ^ 32
  userMaxBuy : p.userMaxBuy < 2 ^ 64
  startTime : p.startTime < 2 ^ 64
  endTime : p.endTime < 2 ^ 64
  presaleDuration : p.presaleDuration < 2 ^ 64
  totalParticipants : p.totalParticipants < 2 ^ 32
  totalSolAmount : p.totalSolAmount < 2 ^ 64
  totalTokenRemained : p.totalTokenRemained < 2 ^ 64
  totalPresaleToken : p.totalPresaleToken < 2 ^ 64
  isFinalized : p.isFinalized < 2 ^ 8
  isCancelled : p.isCancelled < 2 ^ 8
  softCap : p.softCap < 2 ^ 64
  tokenAllocation : p.tokenAllocation < 2 ^ 32
  isHardcapped : p.isHardcapped < 2 ^ 8
  isSoftcapped : p.isSoftcapped < 2 ^ 8

/-- Every field of a user record is in the range of its type. -/
structure UserAccount.InRange (u : UserAccount) : Prop where
  userBuyAmount : u.userBuyAmount < 2 ^ 64
  userSolContributed : u.userSolContributed < 2 ^ 64
  isClaimed : u.isClaimed < 2 ^ 8

/-- A presale record can be stored exactly when it is in range. -/
theorem presaleLayout_valid {p : PresaleAccount} : presaleLayout.Valid p ↔ p.InRange := by
  constructor
  · rintro ⟨h₁, h₂, h₃, h₄, h₅, h₆, h₇, h₈, h₉, h₁₀, h₁₁, h₁₂, h₁₃, h₁₄, h₁₅, h₁₆, h₁₇⟩
    exact ⟨h₁, h₂, h₃, h₄, h₅, h₆, h₇, h₈, h₉, h₁₀, h₁₁, h₁₂, h₁₃, h₁₄, h₁₅, h₁₆, h₁₇⟩
  · intro h
    exact ⟨h.1, h.2, h.3, h.4, h.5, h.6, h.7, h.8, h.9, h.10, h.11, h.12, h.13, h.14, h.15,
      h.16, h.17⟩

/-- A user record can be stored exactly when it is in range and its wallet's address can be
written. -/
theorem userLayout_valid {keys : KeyCodec} {u : UserAccount} :
    (userLayout keys).Valid u ↔ u.InRange ∧ keys.Valid u.publicKey := by
  constructor
  · rintro ⟨-, hbuy, hsol, hclaimed, hkey⟩
    exact ⟨⟨hbuy, hsol, hclaimed⟩, hkey⟩
  · rintro ⟨⟨hbuy, hsol, hclaimed⟩, hkey⟩
    exact ⟨trivial, hbuy, hsol, hclaimed, hkey⟩

/-- An admin record fits its layout when its key does. -/
theorem adminLayout_valid {keys : KeyCodec} {r : AdminAccount} :
    (adminLayout keys).Valid r ↔ keys.Valid r.superAdmin := Iff.rfl

/-! ## Records of any type -/

/-- A record of one of the three types. -/
inductive StoredRecord
  | admin (a : AdminAccount)
  | user (u : UserAccount)
  | presale (p : PresaleAccount)
deriving DecidableEq, Repr

namespace StoredRecord

/-- The first eight bytes of an account that holds the record. -/
def discriminator : StoredRecord → List UInt8
  | admin _ => adminDiscriminator
  | user _ => userDiscriminator
  | presale _ => presaleDiscriminator

/-- The space that is allocated for the record. -/
def space : StoredRecord → ℕ
  | admin _ => adminAccountSize
  | user _ => userAccountSize
  | presale _ => presaleAccountSize

/-- Every field of the record fits in its place in the layout. -/
def Valid (keys : KeyCodec) : StoredRecord → Prop
  | admin a => (adminLayout keys).Valid a
  | user u => (userLayout keys).Valid u
  | presale p => presaleLayout.Valid p

/-- The bytes of the record behind its discriminator. -/
def bytes (keys : KeyCodec) : StoredRecord → List UInt8
  | admin a => adminDiscriminator ++ (adminLayout keys).encode a
  | user u => userDiscriminator ++ (userLayout keys).encode u
  | presale p => presaleDiscriminator ++ presaleLayout.encode p

/-- Write the record at the front of an account's data. -/
def store (keys : KeyCodec) : StoredRecord → List UInt8 → Option (List UInt8)
  | admin a => (adminLayout keys).store adminDiscriminator a
  | user u => (userLayout keys).store userDiscriminator u
  | presale p => presaleLayout.store presaleDiscriminator p

/-- The record fills the space allocated for it to the last byte. -/
theorem length_bytes (keys : KeyCodec) (x : StoredRecord) : (x.bytes keys).length = x.space := by
  cases x with
  | admin a => rw [bytes, List.length_append, Codec.length_encode, adminLayout_size, space]
  | user u => rw [bytes, List.length_append, Codec.length_encode, userLayout_size, space]
  | presale p => rw [bytes, List.length_append, Codec.length_encode, presaleLayout_size, space]

/-- So it is stored there whole, over whatever was there. -/
theorem store_eq_bytes {keys : KeyCodec} {x : StoredRecord} {data : List UInt8}
    (h : data.length = x.space) : x.store keys data = some (x.bytes keys) := by
  cases x with
  | admin a => exact Codec.store_of_length _ (h.trans (adminLayout_size keys).symm)
  | user u => exact Codec.store_of_length _ (h.trans (userLayout_size keys).symm)
  | presale p => exact Codec.store_of_length _ (h.trans presaleLayout_size.symm)

end StoredRecord

end TokenPresale.Model
