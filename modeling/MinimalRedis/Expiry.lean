import MinimalRedis.Database

/-!
# The eagerly purged store

Expiry is lazy: an expired entry stays until some method happens to look at it.  `purge now d` is the
store an eager server would hold, `d` without the entries expired at `now`; what a client may see of
a store is what is left of it.
-/

namespace MinimalRedis

open Lib

variable {S : Type} [Score S]

/-- Remove every entry that has expired at `now`. -/
def purge (now : ℤ) (d : Data S) : Data S := d.filter fun _ v => !v.isExpired now

theorem find?_purge (now : ℤ) (d : Data S) (key : Bytes) :
    (purge now d).find? key = (d.find? key).filter fun v => !v.isExpired now :=
  UMap.find?_filter d _ key

theorem find?_purge_of_none {now : ℤ} {d : Data S} {key : Bytes} (h : d.find? key = none) :
    (purge now d).find? key = none := by rw [find?_purge, h]; rfl

theorem find?_purge_of_expired {now : ℤ} {d : Data S} {key : Bytes} {v : RedisValue S}
    (h : d.find? key = some v) (hv : v.isExpired now = true) : (purge now d).find? key = none := by
  rw [find?_purge, h]
  simp [Option.filter, hv]

theorem find?_purge_of_live {now : ℤ} {d : Data S} {key : Bytes} {v : RedisValue S}
    (h : d.find? key = some v) (hv : v.isExpired now = false) :
    (purge now d).find? key = some v := by
  rw [find?_purge, h]
  simp [Option.filter, hv]

/-- Erasing an expired entry is invisible. -/
theorem purge_erase {now : ℤ} {d : Data S} {key : Bytes} {v : RedisValue S}
    (h : d.find? key = some v) (hv : v.isExpired now = true) :
    purge now (d.erase key) = purge now d := by
  rw [purge, UMap.erase, UMap.filter_filter_comm]
  exact UMap.erase_of_find?_none (find?_purge_of_expired h hv)

/-- Assigning an expired value over an expired entry is invisible. -/
theorem purge_set {now : ℤ} {d : Data S} {key : Bytes} {v w : RedisValue S}
    (h : d.find? key = some v) (hv : v.isExpired now = true) (hw : w.isExpired now = true) :
    purge now (d.set key w) = purge now d := by
  refine UMap.filter_set_of_neg (by simp [hw]) fun v' hv' => ?_
  rw [h, Option.some.injEq] at hv'
  simp [← hv', hv]

/-- The list `a` at `k`, expired at time 1. -/
def staleList : Data NatScore := UMap.set ∅ [107] { type := .list, expiryTime := 1, listVal := [[97]] }

end MinimalRedis
