import TokenPresale.Analysis.SolLedger
import TokenPresale.Analysis.Widths
import TokenPresale.Interface.Locality

/-!
# The program over accounts does what the program does

The records of the model are bytes on the chain, and a handler is given the accounts of its
instruction, not the whole chain. Neither makes a difference: from accounts that store a state
(`Stored`) every list of inputs is accepted and refused alike, leaves the same log and ends in
accounts that store the state the model ends in (`accounts_in_step`).
-/

set_option autoImplicit false

namespace TokenPresale.Analysis

open TokenPresale.Library TokenPresale.Model TokenPresale.Interface
open Machine (InStep told exec_inStep)

/-- The accounts `r` store the state `s`: an account with a record has the bytes of the record for
its data, and an account of the program without one is blank. -/
structure Stored (keys : KeyCodec) (r : AccountStore) (s : State) : Prop where
  lamports : r.lamports = s.lamports
  owner : r.owner = s.owner
  mints : r.mints = s.mints
  tokens : r.tokens = s.tokens
  record : ∀ k x, s.recordAt k = some x → x.Valid keys ∧ r.data k = x.bytes keys
  blank : ∀ k, s.recordAt k = none → s.owner k = .tokenPresale →
    ∃ n, 8 ≤ n ∧ r.data k = List.replicate n 0

/-! ## One record an account -/

section Records

variable {s : State}

/-- The record at an address is a user record exactly when the ledger of users has it there. -/
theorem recordAt_user {k : Pubkey} {u : UserAccount} :
    s.recordAt k = some (.user u) ↔ s.users.lookup k = some u := by
  unfold State.recordAt
  cases hu : s.users.lookup k with
  | some v => simp
  | none =>
    cases ha : s.admins k with
    | some a => simp
    | none =>
      simp only [reduceCtorEq, iff_false]
      split_ifs <;> cases s.presale <;> simp

/-- The record at an address is an admin record exactly when there is one there. -/
theorem Coherent.recordAt_admin (c : Coherent s) {k : Pubkey} {a : AdminAccount} :
    s.recordAt k = some (.admin a) ↔ s.admins k = some a := by
  unfold State.recordAt
  cases hu : s.users.lookup k with
  | some v =>
    -- a user record and an admin record sit at addresses of different seeds
    simp only [Option.some.injEq, reduceCtorEq, false_iff]
    intro ha
    have hkey := (c.users k v hu).key
    rw [(c.admins k a ha).key] at hkey
    exact absurd hkey (by simp)
  | none =>
    cases ha : s.admins k with
    | some b => simp
    | none =>
      simp only [reduceCtorEq, iff_false]
      split_ifs <;> cases s.presale <;> simp

/-- The record at the address of the presale is the presale record. -/
theorem Coherent.recordAt_presale (c : Coherent s) {p : PresaleAccount} :
    s.recordAt .presaleInfo = some (.presale p) ↔ s.presale = some p := by
  have hu : s.users.lookup .presaleInfo = none := by
    cases hu : s.users.lookup .presaleInfo with
    | none => rfl
    | some v => exact absurd (c.users _ v hu).key (by simp)
  have ha : s.admins .presaleInfo = none := by
    cases ha : s.admins .presaleInfo with
    | none => rfl
    | some a => exact absurd (c.admins _ a ha).key (by simp)
  simp [State.recordAt, hu, ha]

/-- A presale record sits at its own address only. -/
theorem eq_presaleInfo_of_recordAt {k : Pubkey} {p : PresaleAccount}
    (h : s.recordAt k = some (.presale p)) : k = .presaleInfo := by
  unfold State.recordAt at h
  cases hu : s.users.lookup k with
  | some v => simp [hu] at h
  | none =>
    cases ha : s.admins k with
    | some a => simp [hu, ha] at h
    | none =>
      by_contra hne
      simp [hu, ha, hne] at h

/-- An account with a record belongs to the program and has lamports. -/
theorem Coherent.recordAt_alive (c : Coherent s) {k : Pubkey} {x : StoredRecord}
    (h : s.recordAt k = some x) : Alive s k .tokenPresale := by
  cases x with
  | user u => exact (c.users k u (recordAt_user.mp h)).live
  | admin a => exact (c.admins k a (c.recordAt_admin.mp h)).live
  | presale p =>
    obtain rfl := eq_presaleInfo_of_recordAt h
    exact c.presale p (c.recordAt_presale.mp h)

end Records

/-! ## What Anchor reads -/

section Reads

variable {keys : KeyCodec} {r : AccountStore} {s : State}

/-- Zeros are no record. -/
theorem fetch_blank {α : Type} (c : Codec α) {tag : List UInt8} (htag : tag.length = 8)
    (hne : tag ≠ List.replicate 8 0) {n : ℕ} (hn : 8 ≤ n) :
    c.fetch tag (List.replicate n 0) = none := by
  apply c.fetch_eq_none
  rw [htag, List.take_replicate, Nat.min_eq_left hn]
  exact hne.symm

/-- Nor is a record of another type. -/
theorem fetch_bytes_of_ne {α : Type} (c : Codec α) {tag : List UInt8} (htag : tag.length = 8)
    {x : StoredRecord} (hne : x.discriminator ≠ tag) : c.fetch tag (x.bytes keys) = none := by
  cases x with
  | admin a => exact c.fetch_of_tag_ne _ htag hne
  | user u => exact c.fetch_of_tag_ne _ htag hne
  | presale p => exact c.fetch_of_tag_ne _ htag hne

/-- An account without a record reads as no record of any type. -/
theorem Stored.read_of_none (stored : Stored keys r s) {α : Type} (codec : Codec α)
    {tag : List UInt8} (htag : tag.length = 8) (hne : tag ≠ List.replicate 8 0) {k : Pubkey}
    (hk : s.recordAt k = none) : r.read codec tag k = none := by
  unfold AccountStore.read
  split_ifs with howner
  · rw [stored.owner] at howner
    obtain ⟨n, hn, hdata⟩ := stored.blank k hk howner
    rw [hdata, fetch_blank codec htag hne hn]
  · rfl

/-- An account with a record of another type reads as none. -/
theorem Stored.read_of_ne (stored : Stored keys r s) {α : Type} (codec : Codec α)
    {tag : List UInt8} (htag : tag.length = 8) {k : Pubkey} {x : StoredRecord}
    (hk : s.recordAt k = some x) (hne : x.discriminator ≠ tag) : r.read codec tag k = none := by
  unfold AccountStore.read
  split_ifs
  · rw [(stored.record k x hk).2, fetch_bytes_of_ne codec htag hne]
  · rfl

/-- An account with a record reads as that record. -/
theorem Stored.read_of_record (stored : Stored keys r s) (c : Coherent s) {α : Type}
    (codec : Codec α) {tag : List UInt8} {k : Pubkey} {x : StoredRecord} {a : α}
    (hk : s.recordAt k = some x) (hbytes : x.bytes keys = tag ++ codec.encode a)
    (hvalid : x.Valid keys → codec.Valid a) : r.read codec tag k = some a := by
  obtain ⟨hx, hdata⟩ := stored.record k x hk
  have howner : r.owner k = .tokenPresale := by rw [stored.owner, (c.recordAt_alive hk).owner]
  rw [AccountStore.read, if_pos howner, hdata, hbytes, codec.fetch_bytes tag (hvalid hx)]

/-- An account loads as the record of the type asked for, if that is what it holds, and otherwise
not at all. -/
theorem Stored.readUser_eq (stored : Stored keys r s) (c : Coherent s) (k : Pubkey) :
    r.readUser keys k = s.users.lookup k := by
  cases hk : s.recordAt k with
  | none =>
    have hnone : s.users.lookup k = none := by
      cases hu : s.users.lookup k with
      | none => rfl
      | some u => exact absurd (hk.symm.trans (recordAt_user.mpr hu)) (by simp)
    rw [hnone, AccountStore.readUser, stored.read_of_none _ rfl (by decide) hk]
  | some x =>
    have hother : (∀ u, x ≠ .user u) → s.users.lookup k = none := by
      intro hx
      cases hu : s.users.lookup k with
      | none => rfl
      | some u =>
        exact absurd (Option.mem_unique hk (recordAt_user.mpr hu)) (hx u)
    cases x with
    | user u =>
      rw [recordAt_user.mp hk]
      exact stored.read_of_record c _ hk rfl id
    | admin a =>
      rw [hother (by simp)]
      exact stored.read_of_ne _ rfl hk (by simp [StoredRecord.discriminator, adminDiscriminator,
        userDiscriminator])
    | presale p =>
      rw [hother (by simp)]
      exact stored.read_of_ne _ rfl hk (by simp [StoredRecord.discriminator,
        presaleDiscriminator, userDiscriminator])

/-- The admin records are read as they are. -/
theorem Stored.readAdmin_eq (stored : Stored keys r s) (c : Coherent s) (k : Pubkey) :
    r.readAdmin keys k = s.admins k := by
  cases hk : s.recordAt k with
  | none =>
    have hnone : s.admins k = none := by
      cases ha : s.admins k with
      | none => rfl
      | some a => exact absurd (hk.symm.trans (c.recordAt_admin.mpr ha)) (by simp)
    rw [hnone, AccountStore.readAdmin, stored.read_of_none _ rfl (by decide) hk]
  | some x =>
    have hother : (∀ a, x ≠ .admin a) → s.admins k = none := by
      intro hx
      cases ha : s.admins k with
      | none => rfl
      | some a =>
        exact absurd (Option.mem_unique hk (c.recordAt_admin.mpr ha)) (hx a)
    cases x with
    | admin a =>
      rw [c.recordAt_admin.mp hk]
      exact stored.read_of_record c _ hk rfl id
    | user u =>
      rw [hother (by simp)]
      exact stored.read_of_ne _ rfl hk (by simp [StoredRecord.discriminator, adminDiscriminator,
        userDiscriminator])
    | presale p =>
      rw [hother (by simp)]
      exact stored.read_of_ne _ rfl hk (by simp [StoredRecord.discriminator,
        presaleDiscriminator, adminDiscriminator])

/-- The presale record is read as it is. -/
theorem Stored.readPresale_eq (stored : Stored keys r s) (c : Coherent s) :
    r.readPresale .presaleInfo = s.presale := by
  cases hp : s.presale with
  | some p => exact stored.read_of_record c _ (c.recordAt_presale.mpr hp) rfl id
  | none =>
    have hk : s.recordAt .presaleInfo = none := by
      cases hk : s.recordAt .presaleInfo with
      | none => rfl
      | some x =>
        cases x with
        | user u => exact absurd (c.users _ u (recordAt_user.mp hk)).key (by simp)
        | admin a => exact absurd (c.admins _ a (c.recordAt_admin.mp hk)).key (by simp)
        | presale p => exact absurd ((c.recordAt_presale.mp hk).symm.trans hp) (by simp)
    exact stored.read_of_none _ rfl (by decide) hk

/-- The ledger of users that is read has the records of the accounts named. -/
theorem lookup_readUsers (named : List Pubkey) (k : Pubkey) :
    (r.readUsers keys named).lookup k = if k ∈ named then r.readUser keys k else none := by
  induction named with
  | nil => simp [AccountStore.readUsers]
  | cons x named ih =>
    rw [AccountStore.readUsers]
    rcases eq_or_ne k x with rfl | hne
    · cases hu : r.readUser keys k with
      | some u => simp
      | none =>
        simp only [ih, hu, ite_self]
    · cases hu : r.readUser keys x with
      | some u => simp [Finmap.lookup_insert_of_ne _ hne, ih, hne]
      | none => simp [ih, hne]

/-- What a handler is given agrees with the state on the accounts named. -/
theorem Stored.view_agrees (stored : Stored keys r s) (c : Coherent s) (named : List Pubkey) :
    Agree named s (r.view keys named) where
  lamports k hk := by simp only [AccountStore.view, if_pos hk, stored.lamports]
  owner k hk := by simp only [AccountStore.view, if_pos hk, stored.owner]
  mints k hk := by simp only [AccountStore.view, if_pos hk, stored.mints]
  tokens k hk := by simp only [AccountStore.view, if_pos hk, stored.tokens]
  admins k hk := by simp only [AccountStore.view, if_pos hk, stored.readAdmin_eq c]
  users k hk := by
    simp only [AccountStore.view, lookup_readUsers, if_pos hk, stored.readUser_eq c]
  presale hk := by simp only [AccountStore.view, if_pos hk, stored.readPresale_eq c]

end Reads

/-! ## Which records an instruction makes -/

section Step

variable {named : List Pubkey} {s t s' : State} {cx : Context} {i : Instruction}
  {log : List LogEntry} {k : Pubkey}

/-- States with the same records at an address have the same record there. -/
theorem recordAt_congr (hu : s.users.lookup k = t.users.lookup k)
    (ha : s.admins k = t.admins k) (hp : k = .presaleInfo → s.presale = t.presale) :
    s.recordAt k = t.recordAt k := by
  unfold State.recordAt
  rw [hu, ha]
  split_ifs with hk
  · rw [hp hk]
  · rfl

/-- States that agree on an account have the same record there. -/
theorem recordAt_of_agree (agree : Agree named s t) (hk : k ∈ named) :
    s.recordAt k = t.recordAt k := by
  apply recordAt_congr (agree.users k hk) (agree.admins k hk)
  rintro rfl
  exact agree.presale hk

/-- An account that is not named keeps its record. -/
theorem recordAt_of_frame (frame : Frame named s s') (hk : k ∉ named) :
    s'.recordAt k = s.recordAt k := by
  apply recordAt_congr (frame.users k hk) (frame.admins k hk)
  rintro rfl
  exact frame.presale hk

/-- A user record is new, in an account of its size that the instruction makes, or it rewrites a
user record. -/
theorem Coherent.user_made (c : Coherent s) (h : Effect s (.instruction cx i) s' log)
    {u' : UserAccount} (hu' : s'.users.lookup k = some u') :
    (i.space k = some userAccountSize ∧ ∃ w ∈ i.accounts, k = .userRole w) ∨
      i.space k = none ∧ ∃ u, s.users.lookup k = some u := by
  cases h with
  | initializePresale ok =>
    have hempty := c.unlaunched (c.not_launched ok)
    simp [afterInitialize, hempty] at hu'
  | @add _ a p ok =>
    rcases eq_or_ne k (.userRole a.authority) with rfl | hne
    · refine .inl ⟨if_pos ok.userAccount.symm, a.authority, ?_, rfl⟩
      simp [Instruction.accounts, Instruction.writable]
    · refine .inr ⟨if_neg (ok.userAccount ▸ hne), u', ?_⟩
      simpa only [afterAdd, Finmap.lookup_insert_of_ne _ hne] using hu'
  | @buy _ a amount p u ok =>
    rcases eq_or_ne k (.userRole a.authority) with rfl | hne
    · exact .inr ⟨rfl, u, ok.user⟩
    · exact .inr ⟨rfl, u', by simpa only [afterBuy, Finmap.lookup_insert_of_ne _ hne] using hu'⟩
  | @claim _ a p u v d ok =>
    rcases eq_or_ne k (.userRole a.userTo) with rfl | hne
    · exact .inr ⟨rfl, u, ok.user⟩
    · exact .inr ⟨rfl, u', by simpa only [afterClaim, Finmap.lookup_insert_of_ne _ hne] using hu'⟩
  | @remove _ a p u ok =>
    rcases eq_or_ne k (.userRole a.authority) with rfl | hne
    · exact .inr ⟨rfl, u, ok.user⟩
    · exact .inr ⟨rfl, u',
        by simpa only [afterRemove, Finmap.lookup_insert_of_ne _ hne] using hu'⟩
  | _ => exact .inr ⟨rfl, u', hu'⟩

/-- An admin record after an instruction is one that it opened or one that was there. -/
theorem Coherent.admin_made (c : Coherent s) (h : Effect s (.instruction cx i) s' log)
    {a' : AdminAccount} (ha' : s'.admins k = some a') :
    (i.space k = some adminAccountSize ∧ ∃ w ∈ i.accounts, k = .adminRole w) ∨
      i.space k = none ∧ ∃ a, s.admins k = some a := by
  cases h with
  | @initializePresale _ a args p ok =>
    rcases eq_or_ne k (.adminRole a.admin) with rfl | hne
    · refine .inl ⟨if_pos ok.adminAccount.symm, a.admin, ?_, rfl⟩
      simp [Instruction.accounts, Instruction.writable]
    · have hold : s.admins k = some a' := by
        simpa only [afterInitialize, Function.update_of_ne hne] using ha'
      have hkey := (c.admins k a' hold).key
      subst hkey
      refine .inr ⟨?_, a', hold⟩
      simp only [Instruction.space, ok.adminAccount, ok.escrowAccount, ok.presaleAccount,
        if_neg hne, reduceCtorEq, if_false]
  | @add _ a p ok =>
    have hkey := (c.admins k a' ha').key
    subst hkey
    exact .inr ⟨by simp [Instruction.space, ok.userAccount], a', ha'⟩
  | _ => exact .inr ⟨rfl, a', ha'⟩

/-- The presale record after an instruction is one that it opened or one that was there. -/
theorem presale_made (h : Effect s (.instruction cx i) s' log) {p' : PresaleAccount}
    (hp' : s'.presale = some p') :
    i.space .presaleInfo = some presaleAccountSize ∨
      i.space .presaleInfo = none ∧ ∃ p, s.presale = some p := by
  cases h with
  | initializePresale ok =>
    left
    simp [Instruction.space, ok.adminAccount, ok.escrowAccount, ok.presaleAccount]
  | add ok => exact .inr ⟨by simp [Instruction.space, ok.userAccount], _, ok.presale⟩
  | buy ok | refund ok | claim ok | cancel ok | update ok | remove ok | finalizePays ok
  | finalizeCancelled ok | withdrawToken ok => exact .inr ⟨rfl, _, ok.presale⟩
  | _ => exact .inr ⟨rfl, p', hp'⟩

/-- Where a record is written there is exactly the space for it. -/
theorem Coherent.record_made (c : Coherent s) (c' : Coherent s')
    (h : Effect s (.instruction cx i) s' log) {x' : StoredRecord} (hx' : s'.recordAt k = some x') :
    i.space k = some x'.space ∨
      i.space k = none ∧ ∃ x, s.recordAt k = some x ∧ x.space = x'.space := by
  cases x' with
  | user u' =>
    rcases c.user_made h (recordAt_user.mp hx') with ⟨hnew, -⟩ | ⟨hold, u, hu⟩
    · exact .inl hnew
    · exact .inr ⟨hold, .user u, recordAt_user.mpr hu, rfl⟩
  | admin a' =>
    rcases c.admin_made h (c'.recordAt_admin.mp hx') with ⟨hnew, -⟩ | ⟨hold, a, ha⟩
    · exact .inl hnew
    · exact .inr ⟨hold, .admin a, c.recordAt_admin.mpr ha, rfl⟩
  | presale p' =>
    obtain rfl := eq_presaleInfo_of_recordAt hx'
    rcases presale_made h (c'.recordAt_presale.mp hx') with hnew | ⟨hold, p, hp⟩
    · exact .inl hnew
    · exact .inr ⟨hold, .presale p, c.recordAt_presale.mpr hp, rfl⟩

/-- No instruction deletes an admin record. -/
theorem adminRecord_kept (h : Effect s (.instruction cx i) s' log) {a : AdminAccount}
    (ha : s.admins k = some a) : ∃ a', s'.admins k = some a' := by
  cases h with
  | @initializePresale _ b args p ok =>
    rcases eq_or_ne k (.adminRole b.admin) with rfl | hne
    · exact ⟨_, Function.update_self _ _ _⟩
    · exact ⟨a, by simpa only [afterInitialize, Function.update_of_ne hne] using ha⟩
  | _ => exact ⟨a, ha⟩

/-- No record is deleted. -/
theorem Coherent.record_kept (c : Coherent s) (c' : Coherent s')
    (h : Effect s (.instruction cx i) s' log) (hnone : s'.recordAt k = none) :
    s.recordAt k = none := by
  cases hx : s.recordAt k with
  | none => rfl
  | some x =>
    cases x with
    | user u =>
      have hmem := (c.allocations_step h).1 (Ledger.mem_keys_of_lookup (recordAt_user.mp hx))
      obtain ⟨u', hu'⟩ := Finmap.mem_iff.mp (Finmap.mem_keys.mp hmem)
      exact absurd (hnone.symm.trans (recordAt_user.mpr hu')) (by simp)
    | admin a =>
      obtain ⟨a', ha'⟩ := adminRecord_kept h (c.recordAt_admin.mp hx)
      exact absurd (hnone.symm.trans (c'.recordAt_admin.mpr ha')) (by simp)
    | presale p =>
      obtain rfl := eq_presaleInfo_of_recordAt hx
      obtain ⟨p', hp', -⟩ := c.record_step h (c.recordAt_presale.mp hx)
      exact absurd (hnone.symm.trans (c'.recordAt_presale.mpr hp')) (by simp)

/-- The program comes to own only the accounts that `init` makes for it. -/
theorem owner_of_space_none (h : Effect s (.instruction cx i) s' log) (hspace : i.space k = none)
    (howner : s'.owner k = .tokenPresale) : s.owner k = .tokenPresale := by
  cases h with
  | @initializePresale _ a args p ok =>
    simp only [Instruction.space, ok.adminAccount, ok.escrowAccount, ok.presaleAccount] at hspace
    split_ifs at hspace with hadmin hescrow hpresale
    simp only [afterInitialize, Function.update_of_ne hadmin, Function.update_of_ne hescrow,
      Function.update_of_ne hpresale] at howner
    rcases eq_or_ne k (.tokenVault a.tokenMint) with rfl | hne
    · simp at howner
    · rwa [Function.update_of_ne hne] at howner
  | @add _ a p ok =>
    have hne : k ≠ .userRole a.authority := by
      rintro rfl
      simp [Instruction.space, ok.userAccount] at hspace
    simpa only [afterAdd, Function.update_of_ne hne] using howner
  | _ => exact howner

/-- An account that the instruction makes has room for a discriminator. -/
theorem space_ge {n : ℕ} (h : i.space k = some n) : 8 ≤ n := by
  cases i with
  | initializePresale a args =>
    simp only [Instruction.space] at h
    split_ifs at h <;> (obtain rfl := Option.some_injective _ h; decide)
  | addWhitelist a =>
    simp only [Instruction.space] at h
    split_ifs at h
    obtain rfl := Option.some_injective _ h
    decide
  | _ => exact absurd h (by simp [Instruction.space])

end Step

/-! ## One step over accounts -/

/-- Every account that the input names has an address of 32 bytes. -/
def Addressed (keys : KeyCodec) : Input → Prop
  | .instruction _ i => ∀ k ∈ i.accounts, keys.Valid k
  | _ => True

section Accounts

variable {keys : KeyCodec} {r : AccountStore} {s s' v' : State} {cx : Context} {i : Instruction}
  {log : List LogEntry}

/-- A record keeps its address, so it can be written if the records before it could and the
accounts that the instruction names have addresses. -/
theorem Stored.valid_step (stored : Stored keys r s) (c : Coherent s) (c' : Coherent s')
    (h : Effect s (.instruction cx i) s' log) (haddr : Addressed keys (.instruction cx i))
    (hpresale : ∀ p, s'.presale = some p → p.InRange)
    (husers : ∀ k u, s'.users.lookup k = some u → u.InRange) {k : Pubkey} {x : StoredRecord}
    (hx : s'.recordAt k = some x) : x.Valid keys := by
  cases x with
  | user u' =>
    have hu' := recordAt_user.mp hx
    have hkey' := (c'.users k u' hu').key
    refine userLayout_valid.mpr ⟨husers k u' hu', ?_⟩
    rcases c.user_made h hu' with ⟨-, w, hw, hkw⟩ | ⟨-, u, hu⟩
    · rw [Pubkey.userRole.inj (hkey'.symm.trans hkw)]
      exact haddr w hw
    · rw [Pubkey.userRole.inj (hkey'.symm.trans (c.users k u hu).key)]
      exact (userLayout_valid.mp (stored.record k _ (recordAt_user.mpr hu)).1).2
  | admin a' =>
    have ha' := c'.recordAt_admin.mp hx
    have hkey' := (c'.admins k a' ha').key
    refine adminLayout_valid.mpr ?_
    rcases c.admin_made h ha' with ⟨-, w, hw, hkw⟩ | ⟨-, a, ha⟩
    · rw [Pubkey.adminRole.inj (hkey'.symm.trans hkw)]
      exact haddr w hw
    · rw [Pubkey.adminRole.inj (hkey'.symm.trans (c.admins k a ha).key)]
      exact adminLayout_valid.mp (stored.record k _ (c.recordAt_admin.mpr ha)).1
  | presale p =>
    obtain rfl := eq_presaleInfo_of_recordAt hx
    exact presaleLayout_valid.mpr (hpresale p (c'.recordAt_presale.mp hx))

/-- Where the handler left a record, the account has exactly the room for it. -/
theorem Stored.length_allocated (stored : Stored keys r s) (c : Coherent s) (c' : Coherent s')
    (h : Effect s (.instruction cx i) s' log) {k : Pubkey} {x : StoredRecord}
    (hx : s'.recordAt k = some x) : (r.allocated i k).length = x.space := by
  unfold AccountStore.allocated
  rcases c.record_made c' h hx with hnew | ⟨hold, x₀, hx₀, hspace⟩
  · rw [hnew, List.length_replicate]
  · rw [hold, (stored.record k x₀ hx₀).2, x₀.length_bytes, hspace]

/-- An account of the program that the handler left without a record is blank. -/
theorem Stored.allocated_blank (stored : Stored keys r s) (c : Coherent s) (c' : Coherent s')
    (h : Effect s (.instruction cx i) s' log) {k : Pubkey} (hx : s'.recordAt k = none)
    (howner : s'.owner k = .tokenPresale) :
    ∃ n, 8 ≤ n ∧ r.allocated i k = List.replicate n 0 := by
  unfold AccountStore.allocated
  cases hspace : i.space k with
  | some n => exact ⟨n, space_ge hspace, rfl⟩
  | none =>
    exact stored.blank k (c.record_kept c' h hx) (owner_of_space_none h hspace howner)

/-- Anchor writes back what the handler left, into accounts that store the new state. -/
theorem Stored.commit (stored : Stored keys r s) (c : Coherent s) (c' : Coherent s')
    (h : runInstruction cx s i = .ok (s', log)) (agree : Agree i.accounts s' v')
    (valid : ∀ k x, s'.recordAt k = some x → x.Valid keys) :
    ∃ r', r.commit keys i v' = some r' ∧ Stored keys r' s' := by
  have effect := effect_of_instruction h
  have frame := frame_of_ok h
  have hnamed : ∀ {k}, k ∈ i.writable → k ∈ i.accounts := fun hk => List.mem_append_left _ hk
  have hsome : ∀ {k x}, k ∈ i.writable → s'.recordAt k = some x →
      AccountStore.writeRecord keys v' k (r.allocated i k) = some (x.bytes keys) := by
    intro k x hk hx
    rw [AccountStore.writeRecord, ← recordAt_of_agree agree (hnamed hk), hx]
    exact StoredRecord.store_eq_bytes (stored.length_allocated c c' effect hx)
  have hnone : ∀ {k}, k ∈ i.writable → s'.recordAt k = none →
      AccountStore.writeRecord keys v' k (r.allocated i k) = some (r.allocated i k) := by
    intro k hk hx
    rw [AccountStore.writeRecord, ← recordAt_of_agree agree (hnamed hk), hx]
  have hroom : ∀ k ∈ i.writable,
      (AccountStore.writeRecord keys v' k (r.allocated i k)).isSome = true := by
    intro k hk
    cases hx : s'.recordAt k with
    | none => rw [hnone hk hx, Option.isSome_some]
    | some x => rw [hsome hk hx, Option.isSome_some]
  refine ⟨_, if_pos hroom, ?_, ?_, ?_, ?_, ?_, ?_⟩
  · funext k
    by_cases hk : k ∈ i.writable
    · exact (if_pos hk).trans (agree.lamports k (hnamed hk)).symm
    · exact (if_neg hk).trans ((congrFun stored.lamports k).trans (frame.lamports k hk).symm)
  · funext k
    by_cases hk : k ∈ i.writable
    · exact (if_pos hk).trans (agree.owner k (hnamed hk)).symm
    · exact (if_neg hk).trans ((congrFun stored.owner k).trans (frame.owner k hk).symm)
  · exact stored.mints.trans frame.mints.symm
  · funext k
    by_cases hk : k ∈ i.writable
    · exact (if_pos hk).trans (agree.tokens k (hnamed hk)).symm
    · exact (if_neg hk).trans ((congrFun stored.tokens k).trans (frame.tokens k hk).symm)
  · intro k x hx
    refine ⟨valid k x hx, ?_⟩
    by_cases hk : k ∈ i.writable
    · simp only [if_pos hk, hsome hk hx, Option.getD_some]
    · rw [recordAt_of_frame frame hk] at hx
      simp only [if_neg hk, (stored.record k x hx).2]
  · intro k hx howner
    by_cases hk : k ∈ i.writable
    · simp only [if_pos hk, hnone hk hx, Option.getD_some]
      exact stored.allocated_blank c c' effect hx howner
    · rw [recordAt_of_frame frame hk] at hx
      rw [frame.owner k hk] at howner
      simp only [if_neg hk]
      exact stored.blank k hx howner

/-- A move outside the program does the same to the accounts as to the state. -/
theorem runOutside_bare (s : State) (o : Outside) :
    runOutside { s with presale := none, admins := fun _ => none, users := ∅ } o =
      (runOutside s o).map fun s' =>
        { s' with presale := none, admins := fun _ => none, users := ∅ } := by
  cases o with
  | payIn k n =>
    simp only [runOutside, checkedAdd, assure, bind, Except.bind]
    split_ifs <;> rfl
  | payOut k n =>
    simp only [runOutside, checkedSub, failIf, assure, bind, Except.bind]
    split_ifs <;> rfl
  | openToken k mint owner =>
    simp only [runOutside, failIf, assure, bind, Except.bind]
    split_ifs <;> rfl
  | tokensOut k n =>
    simp only [runOutside, failIf, assure, bind, Except.bind]
    split_ifs <;> rfl
  | _ => rfl

/-- What the accounts hold beside the records is what the state holds. -/
theorem Stored.bare_eq (stored : Stored keys r s) :
    r.bare = { s with presale := none, admins := fun _ => none, users := ∅ } := by
  simp only [AccountStore.bare, stored.lamports, stored.owner, stored.mints, stored.tokens]

/-- A move outside the program touches no data, so the accounts still store the state. -/
theorem Stored.outside_step (stored : Stored keys r s) {o : Outside}
    (h : runOutside s o = .ok s') :
    Stored keys { r with lamports := s'.lamports, mints := s'.mints, tokens := s'.tokens } s' := by
  have frame := runOutside_frame h
  have hrecord : ∀ k, s'.recordAt k = s.recordAt k := fun k =>
    recordAt_congr (by rw [frame.users]) (by rw [frame.admins]) fun _ => frame.presale
  refine ⟨rfl, stored.owner.trans frame.owner.symm, rfl, rfl, ?_, ?_⟩
  · intro k x hx
    exact stored.record k x ((hrecord k).symm.trans hx)
  · intro k hx howner
    rw [frame.owner] at howner
    exact stored.blank k ((hrecord k).symm.trans hx) howner

/-- The end of a transaction deletes no record and no blank account of the program that has
lamports. -/
theorem Stored.sweep_step (stored : Stored keys r s) (c : Coherent s) :
    Stored keys r.sweep (sweep s) := by
  have hrecord : ∀ k, (sweep s).recordAt k = s.recordAt k := fun k => rfl
  refine ⟨stored.lamports, ?_, stored.mints, stored.tokens, ?_, ?_⟩
  · simp only [AccountStore.sweep, sweep, stored.lamports, stored.owner]
  · intro k x hx
    have hfunded := (c.recordAt_alive ((hrecord k).symm.trans hx)).funded.ne'
    rw [← stored.lamports] at hfunded
    refine ⟨(stored.record k x hx).1, ?_⟩
    simp only [AccountStore.sweep, if_neg hfunded, (stored.record k x hx).2]
  · intro k hx howner
    by_cases hzero : s.lamports k = 0
    · simp [sweep, hzero] at howner
    · simp only [sweep, if_neg hzero] at howner
      obtain ⟨n, hn, hdata⟩ := stored.blank k hx howner
      rw [← stored.lamports] at hzero
      exact ⟨n, hn, by simp only [AccountStore.sweep, if_neg hzero, hdata]⟩

/-! ## Runs over accounts -/

/-- An instruction that succeeds on the state succeeds on the accounts. -/
theorem Stored.instruction_step {s₀ : State} {h : History} (stored : Stored keys r s)
    (fresh : Fresh s₀) (run : presale.Run s₀ h s) (haddr : Addressed keys (.instruction cx i))
    (hok : runInstruction cx s i = .ok (s', log)) :
    ∃ r', accountStep keys r (.instruction cx i) = .ok (r', log) ∧ Stored keys r' s' := by
  have c := coherent_of_run fresh run
  have effect := effect_of_instruction hok
  have hstep : presale.step s (.instruction cx i) = .ok (s', log) := hok
  have run' := run.next hstep
  have hvalid : ∀ k x, s'.recordAt k = some x → x.Valid keys := fun _ _ hx =>
    stored.valid_step c (c.step effect) effect haddr (fun _ hp => presale_inRange fresh run' hp)
      (users_inRange fresh run') hx
  obtain ⟨v', hview, agree⟩ := local_of_ok (stored.view_agrees c i.accounts) hok
  obtain ⟨r', hcommit, stored'⟩ := stored.commit c (c.step effect) hok agree hvalid
  refine ⟨r', ?_, stored'⟩
  simp only [accountStep, hview, hcommit]
  rfl

/-- The program over accounts and the program with its records at hand accept and refuse the same
inputs. -/
theorem accounts_inStep {s₀ : State} (fresh : Fresh s₀) {input : Input}
    (related : Stored keys r s ∧ ∃ h, presale.Run s₀ h s) (haddr : Addressed keys input) :
    InStep presale (onAccounts keys)
      (fun s r => Stored keys r s ∧ ∃ h, presale.Run s₀ h s) s r input := by
  obtain ⟨stored, h, run⟩ := related
  have c := coherent_of_run fresh run
  cases input with
  | instruction cx i =>
    constructor
    · intro s' log hok
      obtain ⟨r', hstep, stored'⟩ := stored.instruction_step fresh run haddr hok
      exact ⟨r', hstep, stored', _, run.next hok⟩
    · intro e herr
      -- success on the accounts would be success on the state
      cases hview : runInstruction cx (r.view keys i.accounts) i with
      | error e' =>
        refine ⟨.program e', ?_⟩
        simp only [onAccounts, accountStep, hview]
      | ok out =>
        obtain ⟨s', hok, -⟩ := local_of_ok (stored.view_agrees c i.accounts).symm hview
        exact absurd (hok.symm.trans herr) (by simp)
  | outside o =>
    have hbare : runOutside r.bare o = (runOutside s o).map fun s' =>
        { s' with presale := none, admins := fun _ => none, users := ∅ } := by
      rw [stored.bare_eq, runOutside_bare]
    constructor
    · intro s' log hok
      have hok' := hok
      simp only [presale, step, bind_eq_ok, pure_eq_ok, Prod.mk.injEq] at hok'
      obtain ⟨t, ho, rfl, rfl⟩ := hok'
      rw [ho] at hbare
      refine ⟨{ r with lamports := t.lamports, mints := t.mints, tokens := t.tokens }, ?_,
        stored.outside_step ho, _, run.next hok⟩
      simp only [onAccounts, accountStep, hbare, Except.map]
    · intro e herr
      simp only [presale, step, bind_eq_error, pure_eq_error, and_false, exists_false,
        or_false] at herr
      rw [herr] at hbare
      refine ⟨.program e, ?_⟩
      simp only [onAccounts, accountStep, hbare, Except.map]
  | endTransaction =>
    constructor
    · intro s' log hok
      obtain ⟨rfl, rfl⟩ := Prod.mk.inj (Except.ok.inj hok)
      exact ⟨r.sweep, rfl, stored.sweep_step c, _, run.next hok⟩
    · intro e herr
      exact absurd herr (by simp [presale, step])

end Accounts

/-- Two levels of one program: from accounts that store a state in which the program has no
account yet, the program over accounts accepts exactly the inputs that the program with its
records at hand accepts, with the same log, and the accounts it ends in store the state the other
ends in. So a handler needs no account it does not name, no record is misread as one of another
type, none is truncated, and every record fits the space that is allocated for it.
SRC: state.rs:14-55, the `Accounts` structures of instructions/ -/
theorem accounts_in_step (keys : KeyCodec) (genesis : State) (fresh : Fresh genesis)
    (accounts : AccountStore) (stored : Stored keys accounts genesis) (inputs : List Input)
    (haddr : ∀ i ∈ inputs, Addressed keys i) :
    Stored keys ((onAccounts keys).exec accounts inputs).2 (presale.exec genesis inputs).2 ∧
      told ((onAccounts keys).exec accounts inputs).1 =
        told (presale.exec genesis inputs).1 := by
  have inStep := exec_inStep (M := presale) (N := onAccounts keys)
    (R := fun s r => Stored keys r s ∧ ∃ h, presale.Run genesis h s) (Q := Addressed keys)
    (fun s r i related haddr => accounts_inStep fresh related haddr)
    ⟨stored, [], .start⟩ haddr
  exact ⟨inStep.1.1, inStep.2.symm⟩

/-! ## The accounts of the small sale -/

/-- A number for each address of the small sale. -/
def sampleNumber : Pubkey → ℕ
  | .key n => 6 * n
  | .escrowVault => 1
  | .presaleInfo => 2
  | .adminRole (.key n) => 6 * n + 3
  | .userRole (.key n) => 6 * n + 4
  | .tokenVault (.key n) => 6 * n + 5
  | _ => 7

/-- The address that a number of the small sale stands for. -/
def sampleAddress (m : ℕ) : Pubkey :=
  match m % 6 with
  | 0 => .key (m / 6)
  | 1 => .escrowVault
  | 2 => .presaleInfo
  | 3 => .adminRole (.key (m / 6))
  | 4 => .userRole (.key (m / 6))
  | _ => .tokenVault (.key (m / 6))

/-- The addresses of the small sale, written as their numbers. -/
def sampleKeys : KeyCodec where
  toCodec := (Codec.bytes 32).retract sampleAddress sampleNumber
  size_eq := rfl

/-- Whether an address can be written is decided by writing and reading it. -/
instance : DecidablePred sampleKeys.Valid := fun k =>
  inferInstanceAs (Decidable (sampleAddress (sampleNumber k) = k ∧ sampleNumber k < 256 ^ 32))

/-- Whether the addresses of an input can be written is decided one by one. -/
instance (keys : KeyCodec) [DecidablePred keys.Valid] (i : Input) :
    Decidable (Addressed keys i) :=
  match i with
  | .instruction _ i => inferInstanceAs (Decidable (∀ k ∈ i.accounts, keys.Valid k))
  | .outside _ => inferInstanceAs (Decidable True)
  | .endTransaction => inferInstanceAs (Decidable True)

/-- The accounts of the sample genesis, none of which has data. -/
def sampleAccounts : AccountStore where
  lamports := Sample.genesis.lamports
  owner := Sample.genesis.owner
  data _ := []
  mints := Sample.genesis.mints
  tokens := Sample.genesis.tokens

/-- The accounts of the sample genesis store it. -/
theorem sampleAccounts_stored : Stored sampleKeys sampleAccounts Sample.genesis := by
  refine ⟨rfl, rfl, rfl, rfl, fun k x hx => ?_,
    fun k _ howner => absurd howner (by simp [Sample.genesis])⟩
  simp [State.recordAt, Sample.genesis] at hx

/-- The small sale over accounts: two orders, the second for the rest of the pool, and a wallet that
is removed. -/
theorem accounts_in_step_small_sale :
    told ((onAccounts sampleKeys).exec sampleAccounts (Sample.opening ++ [Sample.delist 2])).1 =
        told (Sample.play (Sample.opening ++ [Sample.delist 2])).history ∧
      Stored sampleKeys
        ((onAccounts sampleKeys).exec sampleAccounts (Sample.opening ++ [Sample.delist 2])).2
        (Sample.play (Sample.opening ++ [Sample.delist 2])).final := by
  have inStep := accounts_in_step sampleKeys Sample.genesis Sample.fresh sampleAccounts
    sampleAccounts_stored (Sample.opening ++ [Sample.delist 2]) (by decide +kernel)
  exact ⟨inStep.2, inStep.1⟩

end TokenPresale.Analysis
