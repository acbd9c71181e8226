import ExoOS.Lib.Run

/-!
# The block buffer cache

`fs/bcache.c` over the devices of `drivers/storage/blkdev.c`: a pool of sectors found through a hash table, an LRU
list for eviction, write-back of dirty sectors. The hash chains and the LRU list are lists of pool indices. The
outcome of each device access is an argument: a write succeeds (`none`) or fails and leaves something in the sector
(`some`), a read succeeds or fails.

`BcacheSys` adds what the cache is for and how it is used: the last contents marked dirty under each name of a
sector, or what was on the disk at the start, and which buffers are held.
-/

namespace ExoOS.Fs

open Function

abbrev DevId := BitVec 64
abbrev Lba := BitVec 64
abbrev Sector := Nat → BitVec 8

/-! ### Block devices -/

/-- A whole disk, or a partition of a device with its first and last sector. -/
inductive Blkdev
  | disk (n : Nat)
  | part (parent : Blkdev) (lbaStart lbaEnd : Lba)

/-- The disk sector behind a sector of the device; `part_read` and `part_write` refuse what ends after the
partition. -/
def Blkdev.sector : Blkdev → Lba → Option (Nat × Lba)
  | .disk n, lba => some (n, lba)
  | .part parent lbaStart lbaEnd, lba => if lbaEnd < lbaStart + lba then none else parent.sector (lbaStart + lba)

abbrev Disk := Nat × Lba → Sector

def blkdevRead (disk : Disk) (dev : Blkdev) (lba : Lba) (ok : Bool) : Option Sector :=
  (dev.sector lba).bind fun p => if ok then some (disk p) else none

def blkdevWrite (disk : Disk) (dev : Blkdev) (lba : Lba) (data : Sector) (out : Option Sector) : Bool × Disk :=
  match dev.sector lba with
  | none => (false, disk)
  | some p => (out.isNone, update disk p (out.getD data))

def BCACHE_NUM_BUFS : Nat := 512
def BCACHE_HASH_BUCKETS : Nat := 256

/-- `bcache_buf_t` without its links -/
structure Buf where
  devId : DevId
  lba : Lba
  data : Sector
  dirty : Bool
  valid : Bool
  refcount : Nat

def Buf.key (b : Buf) : DevId × Lba := (b.devId, b.lba)

structure Bcache where
  pool : Nat → Buf
  /-- The chain of each bucket, from its head. -/
  hash : Nat → List Nat
  /-- From the most recently used buffer on. -/
  lru : List Nat
  disk : Disk

def hashKey (key : DevId × Lba) : Nat :=
  ((key.1 * 2654435761#64 ^^^ key.2 * 2246822519#64).setWidth 32).toNat % BCACHE_HASH_BUCKETS

-- proofs never look into the hash or count to 512
attribute [irreducible] hashKey BCACHE_NUM_BUFS

namespace Bcache

variable (devs : DevId → Option Blkdev) (s : Bcache) (i : Nat)

def setBuf (f : Buf → Buf) : Bcache := { s with pool := update s.pool i (f (s.pool i)) }

/-- `writeback`; `devs` is `blkdev_get`. -/
def writeback (out : Option Sector) : Bcache :=
  let b := s.pool i
  match devs b.devId with
  | none => s.setBuf i fun b => { b with dirty := false }
  | some dev =>
    let w := blkdevWrite s.disk dev b.lba b.data out
    let s := { s with disk := w.2 }
    if w.1 then s.setBuf i fun b => { b with dirty := false } else s

def hashRemove : Bcache :=
  if !(s.pool i).valid then s
  else
    let h := hashKey (s.pool i).key
    { s with hash := update s.hash h ((s.hash h).erase i) }

def hashInsert : Bcache :=
  let h := hashKey (s.pool i).key
  { s with hash := update s.hash h (i :: s.hash h) }

def lruRemove : Bcache := { s with lru := s.lru.erase i }

def lruPushFront : Bcache := { s with lru := i :: s.lru }

/-- The buffer that `evict_one` takes: the last one that nobody holds. -/
def victim : Option Nat := s.lru.reverse.find? fun i => (s.pool i).refcount == 0

def dropped (b : Buf) : Buf := { b with valid := false, dirty := false, devId := 0, lba := 0 }

def evict (out : Option Sector) : Bcache :=
  let s := if (s.pool i).dirty then s.writeback devs i out else s
  ((s.hashRemove i).lruRemove i).setBuf i dropped

def cached (key : DevId × Lba) : Option Nat :=
  (s.hash (hashKey key)).find? fun i => (s.pool i).key == key && (s.pool i).valid

def filled (id : DevId) (lba : Lba) (data : Sector) : Buf :=
  { devId := id, lba := lba, data := data, valid := true, dirty := false, refcount := 1 }

def get (id : DevId) (dev : Blkdev) (lba : Lba) (out : Option Sector) (ok : Bool) : Option Nat × Bcache :=
  match s.cached (id, lba) with
  | some i =>
    (some i, ((s.setBuf i fun b => { b with refcount := (b.refcount + 1) % 2 ^ 32 }).lruRemove i).lruPushFront i)
  | none =>
    match s.victim with
    | none => (none, s)
    | some i =>
      let s := s.evict devs i out
      match blkdevRead s.disk dev lba ok with
      | none => (none, s.lruPushFront i)
      | some data =>
        let s := s.setBuf i fun _ => filled id lba data
        (some i, (s.hashInsert i).lruPushFront i)

/-- The holder of a buffer changes it and calls `bcache_mark_dirty`. -/
def modify (data : Sector) : Bcache := s.setBuf i fun b => { b with data := data, dirty := true }

def release (out : Option Sector) : Bcache :=
  let s := s.setBuf i fun b => { b with refcount := b.refcount - 1 }
  if (s.pool i).refcount = 0 ∧ (s.pool i).dirty then s.writeback devs i out else s

def flushOne (wanted : Buf → Bool) (out : Nat → Option Sector) (s : Bcache) (i : Nat) : Bcache :=
  if (s.pool i).valid && (s.pool i).dirty && wanted (s.pool i) then s.writeback devs i (out i) else s

def flushDev (id : DevId) (out : Nat → Option Sector) : Bcache :=
  (List.range BCACHE_NUM_BUFS).foldl (flushOne devs (fun b => b.devId == id) out) s

def syncAll (out : Nat → Option Sector) : Bcache :=
  (List.range BCACHE_NUM_BUFS).foldl (flushOne devs (fun _ => true) out) s

end Bcache

def bcacheInit (disk : Disk) : Bcache where
  pool _ := { devId := 0, lba := 0, data := fun _ => 0, dirty := false, valid := false, refcount := 0 }
  hash _ := []
  lru := (List.range BCACHE_NUM_BUFS).foldl (fun l i => i :: l) []
  disk := disk

/-! ### The cache and its users -/

def sectorOf (devs : DevId → Option Blkdev) (key : DevId × Lba) : Option (Nat × Lba) :=
  (devs key.1).bind (·.sector key.2)

structure BcacheSys where
  cache : Bcache
  /-- What a reader should see. -/
  view : DevId × Lba → Sector
  /-- The names under which sectors have been brought in. -/
  used : List (DevId × Lba)
  pins : Nat → Nat

namespace BcacheSys

variable (devs : DevId → Option Blkdev)

def init (disk : Disk) : BcacheSys where
  cache := bcacheInit disk
  view key := ((sectorOf devs key).map disk).getD fun _ => 0
  used := []
  pins _ := 0

inductive Op
  | get (id : DevId) (dev : Blkdev) (lba : Lba) (out : Option Sector) (ok : Bool)
  | modify (i : Nat) (data : Sector)
  | release (i : Nat) (out : Option Sector)
  | flushDev (id : DevId) (out : Nat → Option Sector)
  | syncAll (out : Nat → Option Sector)

def step (s : BcacheSys) : Op → Option BcacheSys
  | .get id dev lba out ok =>
    match s.cache.get devs id dev lba out ok with
    | (none, c) => some { s with cache := c }
    | (some i, c) =>
      some
        { s with
          cache := c
          used := (id, lba) :: s.used
          pins := update s.pins i (s.pins i + 1) }
  | .modify i data =>
    if s.pins i = 0 then none
    else
      some
        { s with
          cache := s.cache.modify i data
          view := update s.view (s.cache.pool i).key data }
  | .release i out =>
    if s.pins i = 0 then none
    else
      some
        { s with
          cache := s.cache.release devs i out
          pins := update s.pins i (s.pins i - 1) }
  | .flushDev id out => some { s with cache := s.cache.flushDev devs id out }
  | .syncAll out => some { s with cache := s.cache.syncAll devs out }

end BcacheSys

end ExoOS.Fs
