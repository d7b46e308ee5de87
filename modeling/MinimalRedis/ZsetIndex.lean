import MinimalRedis.Effects
import MinimalRedis.Rdb

/-!
# The two sorted-set indexes agree

A sorted set is stored twice, by score (`zset_score_to_member`) and by member
(`zset_member_to_score`), and `zadd` / `zrem` keep both by hand.  Over every sequence of `Database`
operations from the empty store, **for every key and whatever its type**:

* the pairs by score are, up to order, the swapped pairs by member (`IndexesAgree`);
* a member's score is the last one a `zadd` gave it, with no later `zrem` of it that found the key
  holding a sorted set (`LastGiven`).

A `zrem` on a key of another type is refused, so it leaves the hidden index as it is.
-/

namespace MinimalRedis

open Lib

variable {S : Type} [Score S]

/-! ### Operations -/

/-- Every `Database` operation: the calls, the two readers of files and the two writers. -/
inductive Operation (S : Type) [Score S] where
  | call (c : Call S)
  | loadRdb (file : Bytes)
  | loadFromFile (file : Bytes)
  | saveRdb
  | saveToFile

namespace Operation

def apply (d : Data S) : Operation S → Data S
  | .call c => c.apply d
  | .loadRdb file => (MinimalRedis.loadRdb file d).2
  | .loadFromFile file => Call.run (loadTextCalls file) d
  | .saveRdb => d
  | .saveToFile => d

def run (ops : List (Operation S)) (d : Data S) : Data S := ops.foldl apply d

/-- The calls an operation makes. -/
def calls : Operation S → List (Call S)
  | .call c => [c]
  | .loadRdb file => (loadCalls file).2
  | .loadFromFile file => loadTextCalls file
  | .saveRdb => []
  | .saveToFile => []

theorem apply_eq_run_calls (d : Data S) (op : Operation S) : op.apply d = Call.run op.calls d := by
  cases op <;> rfl

theorem run_eq_run_calls (ops : List (Operation S)) (d : Data S) :
    run ops d = Call.run (ops.flatMap calls) d := by
  induction ops generalizing d with
  | nil => rfl
  | cons op ops ih =>
    rw [List.flatMap_cons, Call.run_append, ← apply_eq_run_calls]
    exact ih _

end Operation

/-! ### One value -/

/-- The pairs by score are the swapped pairs by member. -/
def RedisValue.IndexesAgree (v : RedisValue S) : Prop :=
  v.zsetScoreToMember.entries.Perm (v.zsetMemberToScore.entries.map Prod.swap)

/-- The score the last pair with member `m` carries. -/
def lastScore (m : Bytes) (ps : List (S × Bytes)) : Option S := lookupLast m (ps.map Prod.swap)

theorem RedisValue.indexesAgree_default : (default : RedisValue S).IndexesAgree := List.Perm.refl _

namespace Database

open RedisValue

/-- Without its old pair, the score index holds the pairs of the other members. -/
theorem IndexesAgree.erase {v : RedisValue S} {m : Bytes} {old : S} (h : v.IndexesAgree)
    (hm : v.zsetMemberToScore.find? m = some old) :
    (v.zsetScoreToMember.erase old m).entries.Perm
      ((v.zsetMemberToScore.erase m).entries.map Prod.swap) := by
  have hsplit := (UMap.perm_cons_erase hm).map Prod.swap
  exact Multimap.erase_perm (h.trans hsplit)

theorem zaddOne_indexesAgree {v : RedisValue S} (h : v.IndexesAgree) (p : S × Bytes) :
    (zaddOne v p).IndexesAgree := by
  have hset := (UMap.perm_set v.zsetMemberToScore p.2 p.1).map Prod.swap
  -- the insertion into what the score index was without the member
  have hinsert : ∀ byScore : Multimap S Bytes,
      byScore.entries.Perm ((v.zsetMemberToScore.erase p.2).entries.map Prod.swap) →
      (byScore.insert p.1 p.2).entries.Perm
        ((v.zsetMemberToScore.set p.2 p.1).entries.map Prod.swap) := by
    intro byScore hrest
    exact (Multimap.insert_perm byScore p.1 p.2).trans ((hrest.cons (p.1, p.2)).trans hset.symm)
  unfold zaddOne
  cases hm : v.zsetMemberToScore.find? p.2 with
  | none =>
    apply hinsert
    rw [UMap.erase_of_find?_none hm]
    exact h
  | some old => exact hinsert _ (IndexesAgree.erase h hm)

theorem zremOne_indexesAgree {x : Bool × RedisValue S} (h : x.2.IndexesAgree) (m : Bytes) :
    (zremOne x m).2.IndexesAgree := by
  unfold zremOne
  split
  · exact h
  · rename_i score hm
    exact IndexesAgree.erase h hm

theorem foldl_zaddOne_indexesAgree (ps : List (S × Bytes)) {v : RedisValue S}
    (h : v.IndexesAgree) : (ps.foldl zaddOne v).IndexesAgree := by
  induction ps generalizing v with
  | nil => exact h
  | cons p ps ih => exact ih (zaddOne_indexesAgree h p)

theorem foldl_zremOne_indexesAgree (ms : List Bytes) {x : Bool × RedisValue S}
    (h : x.2.IndexesAgree) : (ms.foldl zremOne x).2.IndexesAgree := by
  induction ms generalizing x with
  | nil => exact h
  | cons m ms ih => exact ih (zremOne_indexesAgree h m)

theorem zsetMemberToScore_foldl_zaddOne (ps : List (S × Bytes)) (v : RedisValue S) :
    (ps.foldl zaddOne v).zsetMemberToScore = v.zsetMemberToScore.setMany (ps.map Prod.swap) := by
  induction ps generalizing v with
  | nil => rfl
  | cons p ps ih => exact ih (zaddOne v p)

theorem zsetMemberToScore_foldl_zremOne (ms : List Bytes) (x : Bool × RedisValue S) :
    (ms.foldl zremOne x).2.zsetMemberToScore = x.2.zsetMemberToScore.eraseMany ms := by
  induction ms generalizing x with
  | nil => rfl
  | cons m ms ih =>
    rw [List.foldl_cons, ih]
    show _ = (x.2.zsetMemberToScore.erase m).eraseMany ms
    unfold zremOne
    split
    · rename_i hnone
      rw [UMap.erase_of_find?_none hnone]
    · rfl

/-- After the `zadd` loop a member has the last score the pairs give it, else its old one. -/
theorem find?_foldl_zaddOne (ps : List (S × Bytes)) (v : RedisValue S) (m : Bytes) :
    (ps.foldl zaddOne v).zsetMemberToScore.find? m =
      (lastScore m ps).or (v.zsetMemberToScore.find? m) := by
  rw [zsetMemberToScore_foldl_zaddOne, UMap.find?_setMany, lastScore]

theorem find?_zremOne (x : Bool × RedisValue S) (m m' : Bytes) :
    (zremOne x m').2.zsetMemberToScore.find? m =
      if m = m' then none else x.2.zsetMemberToScore.find? m := by
  unfold zremOne
  split
  · rename_i hm
    by_cases h : m = m'
    · simp [h, hm]
    · simp [h]
  · exact UMap.find?_erase _ _ _

/-- After the `zrem` loop the listed members are gone and the others stay. -/
theorem find?_foldl_zremOne (ms : List Bytes) (x : Bool × RedisValue S) (m : Bytes) :
    (ms.foldl zremOne x).2.zsetMemberToScore.find? m =
      if m ∈ ms then none else x.2.zsetMemberToScore.find? m := by
  induction ms generalizing x with
  | nil => simp
  | cons m' ms ih =>
    rw [List.foldl_cons, ih, find?_zremOne]
    by_cases h : m = m' <;> by_cases h' : m ∈ ms <;> simp [h, h']

end Database

/-! ### Calls that leave the indexes alone -/

/-- Both indexes are the same. -/
def SameZset (v v' : RedisValue S) : Prop :=
  v'.zsetScoreToMember = v.zsetScoreToMember ∧ v'.zsetMemberToScore = v.zsetMemberToScore

theorem SameZset.refl (v : RedisValue S) : SameZset v v := ⟨rfl, rfl⟩

/-- The two calls that write the sorted-set indexes. -/
def Call.touchesZset : Call S → Bool
  | .zadd _ _ => true
  | .zrem _ _ => true
  | _ => false

theorem Call.sameZset_apply (c : Call S) (h : c.touchesZset = false) (d : Data S) :
    EntryFrame SameZset d (c.apply d) := by
  have hrefl : ∀ v : RedisValue S, SameZset v v := SameZset.refl
  have hpure : EntryFrame SameZset d d := EntryFrame.refl hrefl d
  cases c with
  | zadd key members => simp [touchesZset] at h
  | zrem key members => simp [touchesZset] at h
  | set key value => exact EntryFrame.set hrefl ⟨rfl, rfl⟩
  | lpush key values => exact EntryFrame.set hrefl ⟨rfl, rfl⟩
  | rpush key values => exact EntryFrame.set hrefl ⟨rfl, rfl⟩
  | sadd key members => exact EntryFrame.set hrefl ⟨rfl, rfl⟩
  | hset key field value => exact EntryFrame.set hrefl ⟨rfl, rfl⟩
  | lpop key => exact EntryFrame.updateTyped hrefl (fun _ => ⟨rfl, rfl⟩) key d
  | rpop key => exact EntryFrame.updateTyped hrefl (fun _ => ⟨rfl, rfl⟩) key d
  | srem key members => exact EntryFrame.updateTyped hrefl (fun _ => ⟨rfl, rfl⟩) key d
  | hdel key fields => exact EntryFrame.updateTyped hrefl (fun _ => ⟨rfl, rfl⟩) key d
  | get now key => exact EntryFrame.ifTypedLive hrefl now _ _ _ key d
  | llen now key => exact EntryFrame.ifTypedLive hrefl now _ _ _ key d
  | del key => exact EntryFrame.erase hrefl key d
  | keyExists now key => exact EntryFrame.ifLive hrefl fun _ _ => hpure
  | type now key => exact EntryFrame.ifLive hrefl fun _ _ => hpure
  | ttl now key => exact EntryFrame.ifLive hrefl fun _ _ => hpure
  | pttl now key => exact EntryFrame.ifLive hrefl fun _ _ => hpure
  | expire now key seconds => exact EntryFrame.ifLive_set hrefl fun _ => ⟨rfl, rfl⟩
  | pexpire now key ms => exact EntryFrame.ifLive_set hrefl fun _ => ⟨rfl, rfl⟩
  | persist now key => exact EntryFrame.ifLive_set hrefl fun _ => ⟨rfl, rfl⟩
  | incrementModCount key =>
    show EntryFrame SameZset d (Database.incrementModCount key d)
    unfold Database.incrementModCount
    split <;> rename_i hv <;> exact EntryFrame.set hrefl (by rw [hv]; exact ⟨rfl, rfl⟩)
  | setExpiryTime key expiry =>
    show EntryFrame SameZset d (Database.setExpiryTime key expiry d)
    unfold Database.setExpiryTime
    split
    · exact hpure
    · rename_i v hv
      exact EntryFrame.set hrefl (by rw [hv]; exact ⟨rfl, rfl⟩)
  | query => exact hpure

/-! ### Where a score comes from -/

def HoldsZset (key : Bytes) (d : Data S) : Prop := (d.find? key).map RedisValue.type = some .zset

/-- The calls end with a `zadd` that gave `m` at `key` the score `s`, up to calls that neither give
`m` another score nor are a `zrem` of `m` on a sorted set. -/
def LastGiven (calls : List (Call S)) (key m : Bytes) (s : S) : Prop :=
  ∃ pre ps post, calls = pre ++ .zadd key ps :: post ∧ lastScore m ps = some s ∧
    (∀ ps', .zadd key ps' ∈ post → lastScore m ps' = none) ∧
    ∀ post₁ ms post₂, post = post₁ ++ .zrem key ms :: post₂ → m ∈ ms →
      ¬ HoldsZset key (Call.run (pre ++ .zadd key ps :: post₁) ∅)

theorem LastGiven.of_zadd {calls : List (Call S)} {key m : Bytes} {ps : List (S × Bytes)} {s : S}
    (h : lastScore m ps = some s) : LastGiven (calls ++ [.zadd key ps]) key m s :=
  ⟨calls, ps, [], rfl, h, by simp, by simp⟩

/-- A call that does not move the score of `m` keeps its origin. -/
theorem LastGiven.append {calls : List (Call S)} {c : Call S} {key m : Bytes} {s : S}
    (h : LastGiven calls key m s) (hadd : ∀ ps, c = .zadd key ps → lastScore m ps = none)
    (hrem : ∀ ms, c = .zrem key ms → m ∈ ms → ¬ HoldsZset key (Call.run calls ∅)) :
    LastGiven (calls ++ [c]) key m s := by
  obtain ⟨pre, ps, post, rfl, hs, hpost, hrem'⟩ := h
  refine ⟨pre, ps, post ++ [c], by simp, hs, ?_, ?_⟩
  · intro ps' hmem
    rcases List.mem_append.mp hmem with hmem | hmem
    · exact hpost ps' hmem
    · exact hadd ps' (List.mem_singleton.mp hmem).symm
  · intro post₁ ms post₂ heq hm
    rcases List.eq_nil_or_concat post₂ with rfl | ⟨post₂, c', rfl⟩
    · -- the `zrem` is the new call
      obtain ⟨rfl, hc⟩ := List.append_inj' heq rfl
      exact hrem ms (List.singleton_inj.mp hc) hm
    · have heq' : post ++ [c] = (post₁ ++ .zrem key ms :: post₂) ++ [c'] := by simp [heq]
      exact hrem' post₁ ms post₂ (List.append_inj' heq' rfl).1 hm

/-! ### Runs -/

/-- The run invariant: at every key, the entry's indexes agree and its scores have an origin. -/
def ZsetInv (calls : List (Call S)) (d : Data S) : Prop :=
  ∀ key, ((d.find? key).getD default).IndexesAgree ∧
    ∀ m s, ((d.find? key).getD default).zsetMemberToScore.find? m = some s →
      LastGiven calls key m s

theorem zsetInv_nil : ZsetInv ([] : List (Call S)) ∅ := by
  intro key
  refine ⟨RedisValue.indexesAgree_default, fun m s h => ?_⟩
  simp [show (default : RedisValue S).zsetMemberToScore = ∅ from rfl] at h

/-- Away from its key a `zadd` or `zrem` keeps the origins. -/
theorem LastGiven.append_of_ne {calls : List (Call S)} {key key' m : Bytes} {s : S}
    (h : LastGiven calls key m s) (hk : key ≠ key') (c : Call S)
    (hc : (∃ ps, c = .zadd key' ps) ∨ ∃ ms, c = .zrem key' ms) :
    LastGiven (calls ++ [c]) key m s := by
  refine h.append ?_ ?_
  · rintro ps rfl
    rcases hc with ⟨ps', hc⟩ | ⟨ms', hc⟩
    · exact absurd (Call.zadd.inj hc).1 hk
    · simp at hc
  · rintro ms rfl
    rcases hc with ⟨ps', hc⟩ | ⟨ms', hc⟩
    · simp at hc
    · exact absurd (Call.zrem.inj hc).1 hk

theorem ZsetInv.zadd {calls : List (Call S)} {d : Data S} (h : ZsetInv calls d) (key : Bytes)
    (ps : List (S × Bytes)) :
    ZsetInv (calls ++ [.zadd key ps]) (Database.zadd key ps d).2 := by
  intro key'
  obtain ⟨hagree, horigin⟩ := h key'
  by_cases hk : key' = key
  · subst hk
    have hfind : ((Database.zadd key' ps d).2.find? key').getD default =
        ps.foldl Database.zaddOne { (d.find? key').getD default with type := .zset } := by
      simp [Database.zadd, Database.writeThrough]
    rw [hfind]
    refine ⟨Database.foldl_zaddOne_indexesAgree ps hagree, fun m s hs => ?_⟩
    rw [Database.find?_foldl_zaddOne] at hs
    cases hlast : lastScore m ps with
    | some s' =>
      obtain rfl : s' = s := by simpa [hlast] using hs
      exact .of_zadd hlast
    | none =>
      have hold := horigin m s (by simpa [hlast] using hs)
      exact hold.append (by rintro ps' hc; cases hc; exact hlast) (by simp)
  · have hfind : (Database.zadd key ps d).2.find? key' = d.find? key' :=
      UMap.find?_set_ne _ _ hk
    rw [hfind]
    exact ⟨hagree, fun m s hs => (horigin m s hs).append_of_ne hk _ (.inl ⟨ps, rfl⟩)⟩

theorem ZsetInv.zrem {calls : List (Call S)} (h : ZsetInv calls (Call.run calls ∅)) (key : Bytes)
    (ms : List Bytes) :
    ZsetInv (calls ++ [.zrem key ms]) (Database.zrem key ms (Call.run calls ∅)).2 := by
  intro key'
  obtain ⟨hagree, horigin⟩ := h key'
  by_cases hzset : HoldsZset key (Call.run calls ∅)
  · obtain ⟨v, hv, htype⟩ := Option.map_eq_some_iff.mp hzset
    have hrun : (Database.zrem key ms (Call.run calls ∅)).2 =
        (Call.run calls ∅).set key (ms.foldl Database.zremOne (false, v)).2 := by
      simp [Database.zrem, Database.updateTyped, hv, htype]
    rw [hrun, UMap.find?_set]
    by_cases hk : key' = key
    · subst hk
      rw [hv, Option.getD_some] at hagree horigin
      rw [if_pos rfl, Option.getD_some]
      refine ⟨Database.foldl_zremOne_indexesAgree ms hagree, fun m s hs => ?_⟩
      rw [Database.find?_foldl_zremOne] at hs
      split at hs
      · simp at hs
      · rename_i hm
        refine (horigin m s hs).append (by simp) fun ms' hc hm' => ?_
        cases hc
        exact absurd hm' hm
    · rw [if_neg hk]
      exact ⟨hagree, fun m s hs => (horigin m s hs).append_of_ne hk _ (.inr ⟨ms, rfl⟩)⟩
  · -- the type test refuses the call
    have hrun : (Database.zrem key ms (Call.run calls ∅)).2 = Call.run calls ∅ := by
      unfold Database.zrem Database.updateTyped
      split
      · rfl
      · rename_i v hv
        rw [if_neg]
        rintro htype
        exact hzset (by simp [HoldsZset, hv, htype])
    rw [hrun]
    refine ⟨hagree, fun m s hs => (horigin m s hs).append (by simp) fun ms' hc _ => ?_⟩
    obtain ⟨hk, -⟩ := Call.zrem.inj hc
    rwa [← hk]

theorem ZsetInv.of_sameZset {calls : List (Call S)} {c : Call S} {d : Data S} (h : ZsetInv calls d)
    (hc : c.touchesZset = false) : ZsetInv (calls ++ [c]) (c.apply d) := by
  intro key
  cases hv : (c.apply d).find? key with
  | none => exact ⟨(zsetInv_nil key).1, fun m s hs => by cases hs⟩
  | some v' =>
    obtain ⟨hscore, hmember⟩ := c.sameZset_apply hc d key v' hv
    obtain ⟨hagree, horigin⟩ := h key
    rw [Option.getD_some]
    refine ⟨?_, fun m s hs => ?_⟩
    · rw [RedisValue.IndexesAgree, hscore, hmember]
      exact hagree
    · rw [hmember] at hs
      refine (horigin m s hs).append ?_ ?_ <;> rintro _ rfl <;> simp [Call.touchesZset] at hc

/-- The invariant holds after every run from the empty store. -/
theorem zsetInv_run (calls : List (Call S)) : ZsetInv calls (Call.run calls ∅) := by
  induction calls using List.reverseRecOn with
  | nil => exact zsetInv_nil
  | append_singleton calls c ih =>
    rw [Call.run_append]
    cases hc : c.touchesZset with
    | false => exact ih.of_sameZset hc
    | true =>
      cases c with
      | zadd key ps => exact ih.zadd key ps
      | zrem key ms => exact ih.zrem key ms
      | _ => simp [Call.touchesZset] at hc

/-! ### The law -/

/-- Agreement of the two indexes of a value, each score being accounted for by `given`. -/
structure ZsetLaw (given : Bytes → S → Prop) (v : RedisValue S) : Prop where
  agree : v.IndexesAgree
  membersOnce : (v.zsetScoreToMember.entries.map Prod.snd).Nodup
  keysOnce : v.zsetMemberToScore.keys.Nodup
  sorted : v.zsetScoreToMember.entries.Pairwise fun a b => a.1 ≤ b.1
  sizes : v.zsetScoreToMember.size = v.zsetMemberToScore.size
  given : ∀ m s, v.zsetMemberToScore.find? m = some s → given m s

theorem RedisValue.IndexesAgree.membersOnce {v : RedisValue S} (h : v.IndexesAgree) :
    (v.zsetScoreToMember.entries.map Prod.snd).Nodup := by
  have hperm := h.map Prod.snd
  rw [List.map_map] at hperm
  exact hperm.nodup_iff.mpr v.zsetMemberToScore.nodup

theorem RedisValue.IndexesAgree.sizes {v : RedisValue S} (h : v.IndexesAgree) :
    v.zsetScoreToMember.size = v.zsetMemberToScore.size := by
  have := h.length_eq
  rwa [List.length_map] at this

theorem zset_indexes_agree_run (ops : List (Operation S)) (key : Bytes) :
    ∀ v, (Operation.run ops ∅).find? key = some v →
      ZsetLaw (LastGiven (ops.flatMap Operation.calls) key) v := by
  intro v hv
  obtain ⟨hagree, horigin⟩ := zsetInv_run (ops.flatMap Operation.calls) key
  rw [← Operation.run_eq_run_calls, hv, Option.getD_some] at hagree horigin
  exact
    { agree := hagree
      membersOnce := hagree.membersOnce
      keysOnce := v.zsetMemberToScore.nodup
      sorted := v.zsetScoreToMember.sorted
      sizes := hagree.sizes
      given := horigin }

theorem zset_indexes_agree_rescored :
    ∃ v, (Operation.run [.call (.zadd [107] [((2 : NatScore), [109]), (1, [110]), (1, [109])])]
        ∅).find? [107] = some v ∧
      ZsetLaw (LastGiven ([Operation.call (.zadd [107]
        [((2 : NatScore), [109]), (1, [110]), (1, [109])])].flatMap Operation.calls) [107]) v :=
  ⟨_, rfl, zset_indexes_agree_run _ [107] _ rfl⟩

/-- `LastGiven` without the look at the key's type: no `zrem` names `m` afterwards. -/
def LastAdded (calls : List (Call S)) (key m : Bytes) (s : S) : Prop :=
  ∃ pre ps post, calls = pre ++ .zadd key ps :: post ∧ lastScore m ps = some s ∧
    (∀ ps', .zadd key ps' ∈ post → lastScore m ps' = none) ∧
    ∀ ms, .zrem key ms ∈ post → m ∉ ms

/-- `ZADD k 1 m`, `SET k x`, `ZREM k m`: the refused `ZREM` leaves `m` in the hidden indexes. -/
theorem zrem_on_string_keeps_member :
    ¬ ∀ (ops : List (Operation NatScore)) (key : Bytes),
      ∀ v, (Operation.run ops ∅).find? key = some v →
        ZsetLaw (LastAdded (ops.flatMap Operation.calls) key) v := by
  intro h
  have hlaw := h [.call (.zadd [107] [(1, [109])]), .call (.set [107] [120]),
    .call (.zrem [107] [[109]])] [107] _ rfl
  obtain ⟨pre, ps, post, heq, -, -, hrem⟩ := hlaw.given [109] 1 rfl
  have hmem : Call.zrem [107] [[109]] ∈ post := by
    rcases pre with _ | ⟨c, pre⟩
    · obtain ⟨-, rfl⟩ := List.cons.inj heq
      simp [Operation.calls]
    · -- the only `zadd` is the first call
      have hmem : Call.zadd [107] ps ∈ [Call.set [107] [120], Call.zrem [107] [[109]]] := by
        rw [show [Call.set [107] [120], .zrem [107] [[109]]] = pre ++ .zadd [107] ps :: post from
          (List.cons.inj heq).2]
        simp
      simp at hmem
  exact hrem _ hmem (by simp)

end MinimalRedis
