import ExoOS.Fs.Bcache

/-!
# Partitions

`part_read` and `part_write` of `drivers/storage/blkdev.c`. They check only the last sector of a request, and compute
it in 64 bits: a request whose end wraps around to a sector before `lba_end` is passed on, wherever it starts
(`partition_confined_iff`).
-/

namespace ExoOS.Fs

open BitVec

def BLKDEV_MAX : Nat := 32

structure PartPriv where
  parent : Blkdev
  lbaStart : Lba
  lbaEnd : Lba

/-- `blkdev_partition_create`; it fails for want of memory (`mem`) or if the registry holds `registered` devices. -/
def blkdevPartitionCreate (mem : Bool) (registered : Nat) (parent : Blkdev) (lbaStart lbaEnd : Lba) : Option PartPriv :=
  if mem ∧ registered < BLKDEV_MAX then some { parent, lbaStart, lbaEnd } else none

namespace PartPriv

variable (p : PartPriv) (lba : Lba) (count : BitVec 32)

/-- The request that goes to the parent; `none` is an error. -/
def access : Option (Lba × BitVec 32) :=
  let absLba := p.lbaStart + lba
  if p.lbaEnd < absLba + count.setWidth 64 - 1 then none else some (absLba, count)

def partRead : Option (Lba × BitVec 32) := p.access lba count

def partWrite : Option (Lba × BitVec 32) := p.access lba count

def Inside : Prop := p.lbaStart.toNat + lba.toNat + count.toNat ≤ p.lbaEnd.toNat + 1

/-- What a request may lead to at the parent. -/
structure Confined (r : Option (Lba × BitVec 32)) : Prop where
  refused : 0 < count.toNat → ¬ p.Inside lba count → r = none
  touched : ∀ absLba n, r = some (absLba, n) → ∀ i < n.toNat,
    (absLba + BitVec.ofNat 64 i).toNat = p.lbaStart.toNat + (lba.toNat + i) ∧
      p.lbaStart.toNat + (lba.toNat + i) ≤ p.lbaEnd.toNat

/-- The end of the request does not wrap, or not to a sector that passes the check. -/
def EndSeen : Prop :=
  count = 0 ∨ p.lbaStart.toNat + lba.toNat + count.toNat ≤ 2 ^ 64 ∨
    p.lbaEnd.toNat < (p.lbaStart.toNat + lba.toNat + (count.toNat - 1)) % 2 ^ 64

variable {p lba count}

theorem access_eq_none_iff (hc : 0 < count.toNat) : p.access lba count = none ↔
    p.lbaEnd.toNat < (p.lbaStart.toNat + lba.toNat + (count.toNat - 1)) % 2 ^ 64 := by
  have hlast : (p.lbaStart + lba + count.setWidth 64 - 1).toNat =
      (p.lbaStart.toNat + lba.toNat + (count.toNat - 1)) % 2 ^ 64 := by
    have hwidth : (count.setWidth 64).toNat = count.toNat := toNat_setWidth_of_le (by decide)
    rw [toNat_sub, toNat_add, toNat_add, hwidth, show (1 : Lba).toNat = 1 from rfl]
    omega
  rw [access, ← hlast]
  split
  next h => exact iff_of_true rfl h
  next h => exact iff_of_false (Option.some_ne_none _) h

theorem eq_of_access {absLba : Lba} {n : BitVec 32} (h : p.access lba count = some (absLba, n)) :
    absLba = p.lbaStart + lba ∧ n = count := by
  rw [access] at h
  split at h
  · cases h
  · cases h
    exact ⟨rfl, rfl⟩

theorem confined_of_inside (h : p.Inside lba count) : p.Confined lba count (p.access lba count) where
  refused _ hno := absurd h hno
  touched absLba n hr i hi := by
    obtain ⟨rfl, rfl⟩ := eq_of_access hr
    unfold Inside at h
    rw [toNat_add, toNat_add, toNat_ofNat]
    omega

theorem confined_access_iff : p.Confined lba count (p.access lba count) ↔ p.EndSeen lba count := by
  rcases Nat.eq_zero_or_pos count.toNat with hzero | hpos
  · refine iff_of_true ⟨fun hc => by omega, fun absLba n hr i hi => ?_⟩ (.inl (eq_of_toNat_eq hzero))
    obtain ⟨-, rfl⟩ := eq_of_access hr
    omega
  have hne : count ≠ 0 := by
    rintro rfl
    exact absurd hpos (by decide)
  by_cases hin : p.Inside lba count
  · refine iff_of_true (confined_of_inside hin) (.inr (.inl ?_))
    unfold Inside at hin
    omega
  -- what does not lie inside has to be refused
  constructor
  · intro h
    exact .inr (.inr ((access_eq_none_iff hpos).1 (h.refused hpos hin)))
  · intro h
    have hlast : p.lbaEnd.toNat < (p.lbaStart.toNat + lba.toNat + (count.toNat - 1)) % 2 ^ 64 := by
      rcases h with h0 | hfits | hlast
      · exact absurd h0 hne
      · unfold Inside at hin
        omega
      · exact hlast
    have hnone := (access_eq_none_iff hpos).2 hlast
    refine ⟨fun _ _ => hnone, fun absLba n hr => ?_⟩
    cases hnone.symm.trans hr

end PartPriv

theorem partition_confined_iff {mem : Bool} {registered : Nat} {parent : Blkdev} {lbaStart lbaEnd : Lba} {p : PartPriv}
    (hp : blkdevPartitionCreate mem registered parent lbaStart lbaEnd = some p) (lba : Lba) (count : BitVec 32) :
    p.lbaStart = lbaStart ∧ p.lbaEnd = lbaEnd ∧
      (p.Confined lba count (p.partRead lba count) ∧ p.Confined lba count (p.partWrite lba count) ↔
        p.EndSeen lba count) := by
  obtain ⟨-, ⟨⟩⟩ := Option.ite_none_right_eq_some.1 hp
  exact ⟨rfl, rfl, and_self_iff.trans PartPriv.confined_access_iff⟩

theorem partition_confined_first : ∃ p, blkdevPartitionCreate true 0 (.disk 0) 2048 4095 = some p ∧
    p.Confined 0 1 (p.partRead 0 1) := by
  have hp : blkdevPartitionCreate true 0 (.disk 0) 2048 4095 = some ⟨.disk 0, 2048, 4095⟩ := rfl
  exact ⟨_, hp, ((partition_confined_iff hp 0 1).2.2.2 (.inr (.inl (by simp)))).1⟩

/-- The sector before a partition is read and written through it. -/
theorem partition_left : ∃ p, blkdevPartitionCreate true 0 (.disk 0) 2048 4095 = some p ∧
    p.partRead 0xFFFFFFFFFFFFFFFF#64 1 = some (2047, 1) ∧ p.partWrite 0xFFFFFFFFFFFFFFFF#64 1 = some (2047, 1) ∧
    ¬ p.Confined 0xFFFFFFFFFFFFFFFF#64 1 (p.partRead 0xFFFFFFFFFFFFFFFF#64 1) := by
  have hpassed : PartPriv.access ⟨.disk 0, 2048, 4095⟩ 0xFFFFFFFFFFFFFFFF#64 1 = some (2047, 1) := by
    simp [PartPriv.access]
  refine ⟨_, rfl, hpassed, hpassed, fun h => ?_⟩
  have htouched := (h.touched 2047 1 hpassed 0 (by simp)).2
  simp at htouched

end ExoOS.Fs
