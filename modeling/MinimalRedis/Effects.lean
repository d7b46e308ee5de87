import MinimalRedis.Calls

/-!
# What a call can do to an entry

`EntryFrame P d d'` says that every entry of `d'` is related by `P` to the entry `d` had under the
same key, a missing one counting as the default value that `data[key]` creates.  Each access pattern
of the store has one frame lemma, so an invariant of entries is checked on the written value only.
-/

namespace MinimalRedis

open Lib

variable {S : Type} [Score S] {α : Type}

def EntryFrame (P : RedisValue S → RedisValue S → Prop) (d d' : Data S) : Prop :=
  ∀ key v', d'.find? key = some v' → P ((d.find? key).getD default) v'

namespace EntryFrame

variable {P : RedisValue S → RedisValue S → Prop} (hrefl : ∀ v, P v v)

include hrefl

theorem refl (d : Data S) : EntryFrame P d d := by
  intro key v' h
  rw [h]
  exact hrefl v'

theorem erase (key : Bytes) (d : Data S) : EntryFrame P d (d.erase key) := by
  intro key' v' h
  rw [UMap.find?_erase] at h
  split at h
  · simp at h
  · rw [h]
    exact hrefl v'

theorem set {key : Bytes} {w : RedisValue S} {d : Data S}
    (h : P ((d.find? key).getD default) w) : EntryFrame P d (d.set key w) := by
  intro key' v' h'
  rw [UMap.find?_set] at h'
  split at h'
  · rename_i hk
    obtain rfl := Option.some.inj h'
    rw [hk]
    exact h
  · rw [h']
    exact hrefl v'

theorem updateTyped {type : RedisType} {absent : α} {update : RedisValue S → α × RedisValue S}
    (h : ∀ v, P v (update v).2) (key : Bytes) (d : Data S) :
    EntryFrame P d (Database.updateTyped type absent update key d).2 := by
  unfold Database.updateTyped
  split
  · exact refl hrefl d
  · rename_i v hv
    split
    · exact set hrefl (by rw [hv]; exact h v)
    · exact refl hrefl d

theorem ifTypedLive (now : ℤ) (type : RedisType) (absent : α) (live : RedisValue S → α)
    (key : Bytes) (d : Data S) :
    EntryFrame P d (Database.ifTypedLive now type absent live key d).2 := by
  unfold Database.ifTypedLive
  split
  · exact refl hrefl d
  · split
    · split
      · exact erase hrefl key d
      · exact refl hrefl d
    · exact refl hrefl d

theorem ifLive {now : ℤ} {absent : α} {live : RedisValue S → α × Data S} {key : Bytes} {d : Data S}
    (h : ∀ v, d.find? key = some v → EntryFrame P d (live v).2) :
    EntryFrame P d (Database.ifLive now absent live key d).2 := by
  unfold Database.ifLive
  split
  · exact refl hrefl d
  · rename_i v hv
    split
    · exact erase hrefl key d
    · exact h v hv

/-- The `ifLive` methods that assign the entry they found. -/
theorem ifLive_set {now : ℤ} {absent : α} {result : α} {write : RedisValue S → RedisValue S}
    {key : Bytes} {d : Data S} (h : ∀ v, P v (write v)) :
    EntryFrame P d (Database.ifLive now absent (fun v => (result, d.set key (write v))) key d).2 :=
  ifLive hrefl fun v hv => set hrefl (by rw [hv]; exact h v)

end EntryFrame

end MinimalRedis
