import MinimalRedis.Counts
import MinimalRedis.Dictionary
import MinimalRedis.SetAlgebra
import MinimalRedis.ZsetRank

/-!
# The store is the dictionary

`dictOf` reads the data as a dictionary of objects: of an entry only the payload of its key's type
counts.  As long as every key is used with one type and nothing expires, the methods of `Database` are
the operations of the dictionary.

* `refined_call` — one method on one key: its answer, its effect, and no other entry is touched;
* `refined_step` — every operation of the store, those over several keys included;
* `database_refines_dictionary` — every run from the empty store.
-/

namespace MinimalRedis

open Lib

variable {S : Type} [Score S] {α : Type}

/-! ### What an entry stands for -/

/-- The payload that counts for a type. -/
def payload : (t : RedisType) → RedisValue S → Object S t
  | .string, v => v.strVal
  | .list, v => v.listVal
  | .set, v => {x | v.setVal.contains x = true}
  | .hash, v => v.hashVal.find?
  | .zset, v => v.zsetMemberToScore.find?

structure EntryOf (t : RedisType) (v : RedisValue S) : Prop where
  type : v.type = t
  lasting : v.expiryTime = 0
  agree : v.IndexesAgree

/-- Every entry is one of its key's type. -/
def Sound (Γ : Bytes → RedisType) (d : Data S) : Prop :=
  ∀ key v, d.find? key = some v → EntryOf (Γ key) v

def objectAt (t : RedisType) (key : Bytes) (d : Data S) : Option (Object S t) :=
  (d.find? key).map (payload t)

/-- The dictionary the data stand for. -/
def dictOf (Γ : Bytes → RedisType) (d : Data S) : Dict S Γ := fun key => objectAt (Γ key) key d

/-- The method of `Database` for an operation on the object of a key, at time `now`. -/
def ObjectOp.call (now : ℤ) (key : Bytes) : {t : RedisType} → ObjectOp S t → Data S → Out S × Data S
  | _, .set value, d => (.done, Database.set key value d)
  | _, .get, d => let x := Database.get now key d; (.element x.1, x.2)
  | _, .list op, d => let x := ListOp.call key (now, op) d; (.list x.1, x.2)
  | _, .sadd members, d => let x := Database.sadd key members d; (.count x.1, x.2)
  | _, .srem members, d => let x := Database.srem key members d; (.count x.1, x.2)
  | _, .sismember member, d => (.flag (Database.sismember key member d), d)
  | _, .scard, d => (.count (Database.scard key d), d)
  | _, .smembers, d => (.elements (Database.smembers key d), d)
  | _, .hset field value, d => (.done, Database.hset key field value d)
  | _, .hget field, d => (.element (Database.hget key field d), d)
  | _, .hdel fields, d => let x := Database.hdel key fields d; (.flag x.1, x.2)
  | _, .hlen, d => (.count (Database.hlen key d), d)
  | _, .hkeys, d => (.elements (Database.hkeys key d), d)
  | _, .hvals, d => (.elements (Database.hvals key d), d)
  | _, .hgetall, d => (.pairs (Database.hgetall key d).entries, d)
  | _, .zadd members, d => let x := Database.zadd key members d; (.flag x.1, x.2)
  | _, .zrem members, d => let x := Database.zrem key members d; (.flag x.1, x.2)
  | _, .zcard, d => (.count (Database.zcard key d), d)
  | _, .zrange start stop, d => (.elements (Database.zrange key start.toInt stop.toInt d), d)
  | _, .zrevrange start stop, d => (.elements (Database.zrevrange key start.toInt stop.toInt d), d)
  | _, .zscore member, d => (.score (Database.zscore key member d), d)
  | _, .zrank member, d => (.rank (Database.zrank key member d), d)

/-- The method of `Database` for an operation of the store. -/
def StoreOp.call {Γ : Bytes → RedisType} (op : ℤ × StoreOp S Γ) (d : Data S) : Out S × Data S :=
  match op.2 with
  | .on key o => o.call op.1 key d
  | .del key => let x := Database.del key d; (.flag x.1, x.2)
  | .keyExists key => let x := Database.keyExists op.1 key d; (.flag x.1, x.2)
  | .type key => let x := Database.type op.1 key d; (.type x.1, x.2)
  | .ttl key => let x := Database.ttl op.1 key d; (.time x.1, x.2)
  | .pttl key => let x := Database.pttl op.1 key d; (.time x.1, x.2)
  | .persist key => let x := Database.persist op.1 key d; (.flag x.1, x.2)
  | .keys => (.elements (Database.keys d), d)
  | .sinter key others => (.elements (Database.sinter (key :: others) d), d)
  | .sunion key others => (.elements (Database.sunion (key :: others) d), d)
  | .sdiff key others => (.elements (Database.sdiff (key :: others) d), d)

/-! ### Access patterns on an entry of its type -/

/-- A method did what the operation does to the object of `key`, and nothing else. -/
structure Refined {t : RedisType} (op : ObjectOp S t) (key : Bytes) (d : Data S)
    (x : Out S × Data S) : Prop where
  answer : op.Answers (contents (objectAt t key d)) x.1
  effect : objectAt t key x.2 = op.effect (objectAt t key d)
  entry : ∀ v, x.2.find? key = some v → EntryOf t v
  frame : ∀ k, k ≠ key → x.2.find? k = d.find? k

section Patterns

variable {t : RedisType} {op : ObjectOp S t} {key : Bytes} {d : Data S}

theorem payload_default (t : RedisType) : payload t (default : RedisValue S) = Object.empty t := by
  cases t with
  | set =>
    show {x : Bytes | (∅ : USet Bytes).contains x = true} = ∅
    exact Set.eq_empty_of_forall_notMem fun x hx => by cases hx
  | _ => rfl

/-- A write finds the contents in the entry, or in the new one. -/
theorem contents_objectAt (t : RedisType) (key : Bytes) (d : Data S) :
    contents (objectAt t key d) = payload t ((d.find? key).getD default) := by
  rw [objectAt]
  cases d.find? key with
  | none => exact (payload_default t).symm
  | some v => rfl

variable (h : ∀ v, d.find? key = some v → EntryOf t v)

include h

theorem readTyped_eq (absent : α) (read : RedisValue S → α) (habsent : read default = absent) :
    Database.readTyped t absent read key d = read ((d.find? key).getD default) := by
  cases hv : d.find? key with
  | none =>
    rw [Database.readTyped, hv]
    exact habsent.symm
  | some v =>
    rw [Database.readTyped_of_find? hv (h v hv).type]
    rfl

theorem ifTypedLive_eq (now : ℤ) (absent : α) (live : RedisValue S → α)
    (habsent : live default = absent) :
    Database.ifTypedLive now t absent live key d = (live ((d.find? key).getD default), d) := by
  cases hv : d.find? key with
  | none =>
    rw [Database.ifTypedLive, hv]
    exact congrArg (fun a => (a, d)) habsent.symm
  | some v =>
    simp only [Database.ifTypedLive, hv, if_pos (h v hv).type,
      RedisValue.isExpired_of_expiryTime_zero (h v hv).lasting, Bool.false_eq_true, if_false,
      Option.getD_some]

theorem agree_getD : ((d.find? key).getD default).IndexesAgree := by
  cases hv : d.find? key with
  | none => exact RedisValue.indexesAgree_default
  | some v => exact (h v hv).agree

theorem lasting_getD : ((d.find? key).getD default).expiryTime = 0 := by
  cases hv : d.find? key with
  | none => rfl
  | some v => exact (h v hv).lasting

/-- A reader answers from the payload. -/
theorem refined_read {out : Out S} (heffect : ∀ x, op.effect x = x)
    (hanswer : op.Answers (payload t ((d.find? key).getD default)) out) :
    Refined op key d (out, d) where
  answer := by rwa [contents_objectAt]
  effect := (heffect _).symm
  entry := h
  frame _ _ := rfl

theorem refined_write (write : RedisValue S → RedisValue S) {out : Out S}
    (htype : ∀ v, (write v).type = t) (hlasting : ∀ v, (write v).expiryTime = v.expiryTime)
    (hagree : ∀ v, v.IndexesAgree → (write v).IndexesAgree)
    (hanswer : op.Answers (payload t ((d.find? key).getD default)) out)
    (heffect : op.effect (objectAt t key d) =
      some (payload t (write ((d.find? key).getD default)))) :
    Refined op key d (out, Database.writeThrough write key d) where
  answer := by rwa [contents_objectAt]
  effect := by
    rw [heffect, objectAt, Database.writeThrough, UMap.find?_set_self, Option.map_some]
  entry v hv := by
    rw [Database.writeThrough, UMap.find?_set_self] at hv
    cases hv
    exact ⟨htype _, (hlasting _).trans (lasting_getD h), hagree _ (agree_getD h)⟩
  frame k hk := UMap.find?_set_ne _ _ hk

/-- A removal works on the entry that is there. -/
theorem refined_update {absent : α} {update : RedisValue S → α × RedisValue S} (wrap : α → Out S)
    (htype : ∀ v, (update v).2.type = v.type)
    (hlasting : ∀ v, (update v).2.expiryTime = v.expiryTime)
    (hagree : ∀ v, v.IndexesAgree → (update v).2.IndexesAgree)
    (habsent : op.Answers (Object.empty t) (wrap absent)) (hnone : op.effect none = none)
    (hanswer : ∀ v, op.Answers (payload t v) (wrap (update v).1))
    (hsome : ∀ v, op.effect (some (payload t v)) = some (payload t (update v).2)) :
    Refined op key d (wrap (Database.updateTyped t absent update key d).1,
      (Database.updateTyped t absent update key d).2) := by
  cases hv : d.find? key with
  | none =>
    have hupdate : Database.updateTyped t absent update key d = (absent, d) := by
      rw [Database.updateTyped, hv]
    rw [hupdate]
    have hobject : objectAt t key d = none := by rw [objectAt, hv]; rfl
    refine ⟨?_, ?_, h, fun _ _ => rfl⟩
    · rw [hobject]
      exact habsent
    · rw [hobject, hnone]
  | some v =>
    have hentry := h v hv
    have hupdate : Database.updateTyped t absent update key d =
        ((update v).1, d.set key (update v).2) := by
      rw [Database.updateTyped, hv]
      exact if_pos hentry.type
    rw [hupdate]
    have hobject : objectAt t key d = some (payload t v) := by rw [objectAt, hv]; rfl
    refine ⟨?_, ?_, fun w hw => ?_, fun k hk => UMap.find?_set_ne _ _ hk⟩
    · rw [hobject]
      exact hanswer v
    · rw [hobject, hsome, objectAt, UMap.find?_set_self, Option.map_some]
    · rw [UMap.find?_set_self] at hw
      cases hw
      exact ⟨(htype v).trans hentry.type, (hlasting v).trans hentry.lasting, hagree v hentry.agree⟩

end Patterns

/-! ### Contents as the containers hold them -/

section Containers

variable {K V : Type} [DecidableEq K]

theorem setOf_contains (s : USet K) : {x | s.contains x = true} = (s.domain : Set K) := by
  ext x
  rw [Finset.mem_coe, UMap.mem_domain]
  rfl

theorem ncard_contains (s : USet K) : {x | s.contains x = true}.ncard = s.size := by
  rw [setOf_contains, Set.ncard_coe_finset, UMap.card_domain]

theorem ncard_isSome (m : UMap K V) : {k | (m.find? k).isSome = true}.ncard = m.size := by
  have hdomain : {k | (m.find? k).isSome = true} = (m.domain : Set K) := by
    ext k
    rw [Finset.mem_coe, UMap.mem_domain]
    rfl
  rw [hdomain, Set.ncard_coe_finset, UMap.card_domain]

theorem lists_keys (s : USet K) : Lists {x | s.contains x = true} s.keys :=
  ⟨s.nodup, fun _ => UMap.contains_iff_mem_keys.symm⟩

theorem graph_entries (m : UMap K V) : Graph m.find? m.entries :=
  ⟨m.nodup, fun _ _ => UMap.mem_entries_iff⟩

theorem contains_insertMany (s : USet K) (xs : List K) :
    {x | (USet.insertMany s xs).contains x = true} = {x | s.contains x = true} ∪ {x | x ∈ xs} := by
  ext x
  simp only [UMap.contains_iff_mem_keys, Set.mem_union, Set.mem_ofPred_eq, USet.mem_keys_insertMany]

theorem contains_eraseMany (s : USet K) (xs : List K) :
    {x | (s.eraseMany xs).contains x = true} = {x | s.contains x = true} \ {x | x ∈ xs} := by
  ext x
  simp only [UMap.contains_iff_mem_keys, Set.mem_sdiff, Set.mem_ofPred_eq, UMap.keys_eraseMany,
    List.mem_filter, decide_not, Bool.not_eq_true', decide_eq_false_iff_not]

/-- What a union adds to a set. -/
theorem size_insertMany_sub (s : USet K) (xs : List K) :
    (USet.insertMany s xs).size - s.size = ({x | x ∈ xs} \ {x | s.contains x = true}).ncard := by
  have hdomain : (USet.insertMany s xs).domain = s.domain ∪ xs.toFinset := by
    rw [USet.insertMany_eq_setMany, UMap.domain_setMany, List.map_map]
    congr 2
    exact List.map_id' xs
  have hset : ({x | x ∈ xs} \ {x | s.contains x = true} : Set K) = ↑(xs.toFinset \ s.domain) := by
    rw [setOf_contains]
    ext x
    simp
  rw [hset, Set.ncard_coe_finset, ← UMap.card_domain, ← UMap.card_domain s, hdomain]
  have hcard := Finset.card_sdiff_add_card xs.toFinset s.domain
  rw [Finset.union_comm] at hcard
  omega

/-- What a removal takes from a set. -/
theorem size_sub_eraseMany (s : USet K) (xs : List K) :
    s.size - (s.eraseMany xs).size = ({x | s.contains x = true} ∩ {x | x ∈ xs}).ncard := by
  have hset : ({x | s.contains x = true} ∩ {x | x ∈ xs} : Set K) = ↑(s.domain ∩ xs.toFinset) := by
    rw [setOf_contains]
    ext x
    simp
  rw [hset, Set.ncard_coe_finset]
  have hsize := UMap.size_eraseMany_add s xs
  omega

theorem find?_eraseMany (m : UMap K V) (ks : List K) (k : K) :
    (m.eraseMany ks).find? k = if k ∈ ks then none else m.find? k := by
  induction ks generalizing m with
  | nil => simp [UMap.eraseMany]
  | cons k' ks ih =>
    show ((m.erase k').eraseMany ks).find? k = _
    rw [ih, UMap.find?_erase]
    by_cases hk : k = k' <;> by_cases hks : k ∈ ks <;> simp [hk, hks]

/-- The pairs by score rank the members. -/
theorem ranking_entries {v : RedisValue S} (hagree : v.IndexesAgree) :
    Ranking v.zsetMemberToScore.find? v.zsetScoreToMember.entries := by
  have hperm : (v.zsetScoreToMember.entries.map Prod.swap).Perm v.zsetMemberToScore.entries := by
    have hswap := hagree.map Prod.swap
    rwa [List.map_map, Prod.swap_swap_eq, List.map_id] at hswap
  refine ⟨⟨?_, fun m s => ?_⟩, v.zsetScoreToMember.sorted⟩
  · exact ((hperm.map Prod.fst).nodup_iff).mpr v.zsetMemberToScore.nodup
  · rw [hperm.mem_iff, UMap.mem_entries_iff]

/-- The rank of a member that is there counts the pairs before it. -/
theorem exists_ranking_zrankLoop {v : RedisValue S} (hagree : v.IndexesAgree) {member : Bytes} {score : S}
    (hscore : v.zsetMemberToScore.find? member = some score) :
    ∃ before after, Ranking v.zsetMemberToScore.find? (before ++ (score, member) :: after) ∧
      Database.zrankLoop score member v.zsetScoreToMember.entries =
        (before.countP (Database.ranksBelow score member) : ℤ) := by
  obtain ⟨before, after, hsplit⟩ := List.append_of_mem (hagree.mem_entries_iff.mpr hscore)
  have hbefore := hagree.not_mem_before hsplit
  refine ⟨before, after, hsplit ▸ ranking_entries hagree, ?_⟩
  rw [hsplit, Database.zrankLoop_split]
  intro hmem
  exact hbefore (List.mem_map_of_mem hmem)

theorem scores_foldl_zaddOne (members : List (S × Bytes)) (v : RedisValue S) :
    (members.foldl Database.zaddOne v).zsetMemberToScore.find? =
      members.foldl (fun (z : Bytes → Option S) p => Function.update z p.2 (some p.1))
        v.zsetMemberToScore.find? := by
  induction members generalizing v with
  | nil => rfl
  | cons p members ih =>
    rw [List.foldl_cons, List.foldl_cons, ih]
    congr 1
    funext m
    show (v.zsetMemberToScore.set p.2 p.1).find? m = _
    rw [UMap.find?_set, Function.update_apply]

end Containers

/-! ### One object -/

section Objects

variable {key : Bytes} {d : Data S} (now : ℤ)

theorem refined_list (op : ListOp) (h : ∀ v, d.find? key = some v → EntryOf .list v) :
    Refined (.list op : ObjectOp S .list) key d ((.list op : ObjectOp S .list).call now key d) := by
  let q : List Bytes := ((d.find? key).getD default).listVal
  cases op with
  | lpush values =>
    refine refined_write h (fun val => { val with type := .list, listVal := values.reverse ++ val.listVal })
      (fun _ => rfl) (fun _ => rfl) (fun _ hv => hv) (fun _ => ?_) ?_
    · show Out.list (.length (((Database.writeThrough _ key d).find? key).getD default).listVal.length) =
        .list (.length (values.foldl (fun q v => v :: q) q).length)
      rw [Database.writeThrough, UMap.find?_set_self, foldl_cons_eq]
      rfl
    · show some (values.foldl (fun q v => v :: q) (contents (objectAt .list key d))) = _
      rw [foldl_cons_eq, contents_objectAt]
      rfl
  | rpush values =>
    refine refined_write h (fun val => { val with type := .list, listVal := val.listVal ++ values })
      (fun _ => rfl) (fun _ => rfl) (fun _ hv => hv) (fun _ => ?_) ?_
    · show Out.list (.length (((Database.writeThrough _ key d).find? key).getD default).listVal.length) =
        .list (.length (values.foldl (fun q v => q ++ [v]) q).length)
      rw [Database.writeThrough, UMap.find?_set_self, foldl_concat_eq]
      rfl
    · show some (values.foldl (fun q v => q ++ [v]) (contents (objectAt .list key d))) = _
      rw [foldl_concat_eq, contents_objectAt]
      rfl
  | lpop =>
    exact refined_update h (fun s => Out.list (.element s)) (fun _ => rfl) (fun _ => rfl)
      (fun _ hv => hv) (fun _ => rfl) rfl (fun _ _ => rfl) fun _ => rfl
  | rpop =>
    exact refined_update h (fun s => Out.list (.element s)) (fun _ => rfl) (fun _ => rfl)
      (fun _ hv => hv) (fun _ => rfl) rfl (fun _ _ => rfl) fun _ => rfl
  | llen =>
    show Refined _ key d (Out.list (.length (Database.llen now key d).1), (Database.llen now key d).2)
    rw [Database.llen, ifTypedLive_eq h now 0 (fun v => v.listVal.length) rfl]
    exact refined_read h (fun x => by cases x <;> rfl) fun _ => rfl
  | lrange start stop =>
    refine refined_read h (fun x => by cases x <;> rfl) fun hq => ?_
    replace hq : q.length < 2 ^ 31 := hq
    show Out.list (.elements (Database.lrange key start.toInt stop.toInt d)) = _
    rw [Database.lrange, readTyped_eq h [] (fun v => Database.slice v.listVal start.toInt stop.toInt),
      slice_eq_between hq]
    · rfl
    · exact (slice_eq_between (q := []) (by decide) start stop).trans (by rw [between]; rfl)
  | lindex index =>
    refine refined_read h (fun x => by cases x <;> rfl) fun hq => ?_
    replace hq : q.length < 2 ^ 31 := hq
    show Out.list (.element (Database.lindex key index.toInt d)) = _
    rw [Database.lindex, readTyped_eq h [] (fun v => Database.elementAt v.listVal index.toInt),
      elementAt_eq hq]
    · rfl
    · rw [show (default : RedisValue S).listVal = [] from rfl, elementAt_eq (q := []) (by decide),
        atPosition]
      split <;> rfl

/-- One method on one key is the operation on the key's object. -/
theorem refined_call {t : RedisType} (op : ObjectOp S t)
    (h : ∀ v, d.find? key = some v → EntryOf t v) : Refined op key d (op.call now key d) := by
  cases op with
  | set value =>
    exact refined_write h (fun val => { val with type := .string, strVal := value }) (fun _ => rfl)
      (fun _ => rfl) (fun _ hv => hv) rfl rfl
  | get =>
    show Refined .get key d (Out.element (Database.get now key d).1, (Database.get now key d).2)
    rw [Database.get, ifTypedLive_eq h now [] (fun v => v.strVal) rfl]
    exact refined_read h (fun _ => rfl) rfl
  | list op => exact refined_list now op h
  | sadd members =>
    refine refined_write h
      (fun val => { val with type := .set, setVal := USet.insertMany val.setVal members })
      (fun _ => rfl) (fun _ => rfl) (fun _ hv => hv) ?_ ?_
    · show Out.count ((((Database.writeThrough _ key d).find? key).getD default).setVal.size -
        ((d.find? key).getD default).setVal.size) = _
      rw [Database.writeThrough, UMap.find?_set_self]
      exact congrArg Out.count (size_insertMany_sub _ members)
    · show some (contents (objectAt .set key d) ∪ {m | m ∈ members}) = _
      rw [contents_objectAt]
      exact congrArg some (contains_insertMany _ _).symm
  | srem members =>
    refine refined_update h Out.count (fun _ => rfl) (fun _ => rfl) (fun _ hv => hv) ?_ rfl
      (fun v => ?_) fun v => ?_
    · show Out.count 0 = .count (∅ ∩ {x | x ∈ members} : Set Bytes).ncard
      rw [Set.empty_inter, Set.ncard_empty]
    · exact congrArg Out.count (size_sub_eraseMany v.setVal members)
    · exact congrArg some (contains_eraseMany v.setVal members).symm
  | sismember member =>
    refine refined_read h (fun _ => rfl) ⟨_, rfl, ?_⟩
    rw [Database.sismember, readTyped_eq h false (fun v => v.setVal.contains member) rfl]
    rfl
  | scard =>
    refine refined_read h (fun _ => rfl) ?_
    rw [Database.scard, readTyped_eq h 0 (fun v => v.setVal.size) rfl]
    exact congrArg Out.count (ncard_contains _).symm
  | smembers =>
    refine refined_read h (fun _ => rfl) ⟨_, rfl, ?_⟩
    rw [Database.smembers, readTyped_eq h [] (fun v => v.setVal.keys) rfl]
    exact lists_keys _
  | hset field value =>
    refine refined_write h
      (fun val => { val with type := .hash, hashVal := val.hashVal.set field value }) (fun _ => rfl)
      (fun _ => rfl) (fun _ hv => hv) rfl ?_
    show some (Function.update (contents (objectAt .hash key d) : Bytes → Option Bytes) field
      (some value)) = _
    rw [contents_objectAt]
    refine congrArg some (funext fun f => ?_)
    show _ = (UMap.set _ field value).find? f
    rw [UMap.find?_set, Function.update_apply]
    rfl
  | hget field =>
    refine refined_read h (fun _ => rfl) ?_
    rw [Database.hget, readTyped_eq h [] (fun v => (v.hashVal.find? field).getD []) rfl]
    rfl
  | hdel fields =>
    refine refined_update h Out.flag (fun _ => rfl) (fun _ => rfl) (fun _ hv => hv) ?_ rfl
      (fun v => ⟨_, rfl, ?_⟩) fun v => congrArg some (funext fun f => ?_)
    · refine ⟨false, rfl, iff_of_false Bool.false_ne_true fun hex => ?_⟩
      obtain ⟨f, -, hf⟩ := hex
      cases hf
    · exact decide_eq_true_iff.trans UMap.size_eraseMany_lt_iff
    · show without fields v.hashVal.find? f = (v.hashVal.eraseMany fields).find? f
      rw [find?_eraseMany, without]
  | hlen =>
    refine refined_read h (fun _ => rfl) ?_
    rw [Database.hlen, readTyped_eq h 0 (fun v => v.hashVal.size) rfl]
    exact congrArg Out.count (ncard_isSome _).symm
  | hkeys =>
    refine refined_read h (fun _ => rfl) ⟨_, ?_, graph_entries _⟩
    rw [Database.hkeys, readTyped_eq h [] (fun v => v.hashVal.keys) rfl]
    rfl
  | hvals =>
    refine refined_read h (fun _ => rfl) ⟨_, ?_, graph_entries _⟩
    rw [Database.hvals, readTyped_eq h [] (fun v => v.hashVal.values) rfl]
    rfl
  | hgetall =>
    refine refined_read h (fun _ => rfl) ⟨_, ?_, graph_entries _⟩
    rw [Database.hgetall, readTyped_eq h ∅ (fun v => v.hashVal) rfl]
  | zadd members =>
    refine refined_write h (fun val => members.foldl Database.zaddOne { val with type := .zset })
      (fun v => ?_) (fun v => expiryTime_foldl_zaddOne members _) (fun v hv => ?_) rfl ?_
    · exact Database.foldl_zaddOne_keeps (fun v => v.type) (fun _ _ => rfl) _ _
    · exact Database.foldl_zaddOne_indexesAgree _ hv
    · show some (members.foldl (fun (z : Bytes → Option S) p => Function.update z p.2 (some p.1))
        (contents (objectAt .zset key d))) = _
      rw [contents_objectAt]
      exact congrArg some (scores_foldl_zaddOne members
        { (d.find? key).getD default with type := .zset }).symm
  | zrem members =>
    refine refined_update h Out.flag (fun v => type_foldl_zremOne members _)
      (fun v => (foldl_zremOne_spec members _).2) (fun v hv => ?_) ?_ rfl
      (fun v => ⟨_, rfl, ?_⟩) fun v => congrArg some (funext fun m => ?_)
    · exact Database.foldl_zremOne_indexesAgree _ hv
    · refine ⟨false, rfl, iff_of_false Bool.false_ne_true fun hex => ?_⟩
      obtain ⟨m, -, hm⟩ := hex
      cases hm
    · have hflag := (foldl_zremOne_spec members (false, v)).1
      rw [hflag]
      exact or_iff_right Bool.false_ne_true
    · show without members v.zsetMemberToScore.find? m =
        (members.foldl Database.zremOne (false, v)).2.zsetMemberToScore.find? m
      rw [Database.find?_foldl_zremOne, without]
      by_cases hm : m ∈ members
      · rw [if_pos hm, if_pos hm]
      · rw [if_neg hm, if_neg hm]
  | zcard =>
    refine refined_read h (fun _ => rfl) ?_
    rw [Database.zcard, readTyped_eq h 0 (fun v => v.zsetMemberToScore.size) rfl]
    exact congrArg Out.count (ncard_isSome _).symm
  | zrange start stop =>
    refine refined_read h (fun _ => rfl) ⟨_, ranking_entries (agree_getD h), fun hlen => ?_⟩
    rw [Database.zrange, readTyped_eq h []
      (fun v => Database.slice (v.zsetScoreToMember.entries.map Prod.snd) start.toInt stop.toInt),
      slice_eq_between (by rwa [List.length_map]), List.length_map]
    exact (slice_eq_between (q := []) (by decide) start stop).trans (by rw [between]; rfl)
  | zrevrange start stop =>
    refine refined_read h (fun _ => rfl) ⟨_, ranking_entries (agree_getD h), fun hlen => ?_⟩
    rw [Database.zrevrange, readTyped_eq h [] (fun v => Database.slice
      (v.zsetScoreToMember.entries.map Prod.snd).reverse start.toInt stop.toInt),
      slice_eq_between (by rwa [List.length_reverse, List.length_map]), List.length_reverse,
      List.length_map]
    exact (slice_eq_between (q := []) (by decide) start stop).trans (by rw [between]; rfl)
  | zscore member =>
    refine refined_read h (fun _ => rfl) ?_
    rw [Database.zscore, readTyped_eq h 0 (fun v => (v.zsetMemberToScore.find? member).getD 0) rfl]
    rfl
  | zrank member =>
    refine refined_read h (fun _ => rfl) ?_
    rw [Database.zrank, readTyped_eq h (-1) _ rfl]
    cases hscore : ((d.find? key).getD default).zsetMemberToScore.find? member with
    | none => exact .inl ⟨hscore, rfl⟩
    | some score =>
      obtain ⟨before, after, hranking, hcount⟩ := exists_ranking_zrankLoop (agree_getD h) hscore
      exact .inr ⟨score, before, after, hranking, congrArg Out.rank hcount⟩

end Objects

/-! ### The store -/

section Store

variable {Γ : Bytes → RedisType} {d : Data S}

/-- A method leaves sound data, and makes of the dictionary what the operation does. -/
structure RefinedStep (op : StoreOp S Γ) (d : Data S) (x : Out S × Data S) : Prop where
  answer : op.Answers (dictOf Γ d) x.1
  effect : dictOf Γ x.2 = op.effect (dictOf Γ d)
  sound : Sound Γ x.2

theorem isSome_dictOf (key : Bytes) : (dictOf Γ d key).isSome = (d.find? key).isSome := by
  rw [dictOf, objectAt, Option.isSome_map]

theorem dictOf_erase (key : Bytes) (d : Data S) :
    dictOf Γ (d.erase key) = Function.update (dictOf Γ d) key none := by
  funext k
  by_cases hk : k = key
  · subst hk
    rw [Function.update_self, dictOf, objectAt, UMap.find?_erase_self]
    rfl
  · rw [Function.update_of_ne hk, dictOf, objectAt, UMap.find?_erase_ne _ hk]
    rfl

theorem refinedStep_read {op : StoreOp S Γ} (hd : Sound Γ d) {out : Out S}
    (heffect : op.effect (dictOf Γ d) = dictOf Γ d) (hanswer : op.Answers (dictOf Γ d) out) :
    RefinedStep op d (out, d) := ⟨hanswer, heffect.symm, hd⟩

/-- Nothing is expired. -/
theorem Sound.ifLive (hd : Sound Γ d) (now : ℤ) (absent : α) (live : RedisValue S → α × Data S)
    (key : Bytes) :
    Database.ifLive now absent live key d = (d.find? key).elim (absent, d) live := by
  unfold Database.ifLive
  cases hv : d.find? key with
  | none => rfl
  | some v =>
    simp only [RedisValue.isExpired_of_expiryTime_zero (hd key v hv).lasting now]
    rfl

theorem setAt_dictOf (hd : Sound Γ d) (key : Bytes) : (dictOf Γ d).setAt key = members key d := by
  have hread : ∀ t, Γ key = t →
      Object.asSet t (contents (objectAt t key d)) = members key d := by
    intro t ht
    have hentry : ∀ v, d.find? key = some v → EntryOf t v := fun v hv => ht ▸ hd key v hv
    cases t with
    | set =>
      show contents (objectAt .set key d) = members key d
      rw [contents_objectAt]
      ext x
      show _ ↔ Database.sismember key x d = true
      rw [Database.sismember, readTyped_eq hentry false (fun v => v.setVal.contains x) rfl]
      rfl
    | _ =>
      symm
      apply Set.eq_empty_of_forall_notMem
      intro x hx
      replace hx : Database.sismember key x d = true := hx
      rw [Database.sismember, Database.readTyped_of_other fun v hv => by
        rw [(hentry v hv).type]; decide] at hx
      cases hx
  exact hread (Γ key) rfl

/-- A look at one key that may answer for a missing one. -/
theorem refinedStep_ifLive {op : StoreOp S Γ} (hd : Sound Γ d) (now : ℤ) {absent : α}
    {live : RedisValue S → α × Data S} {key : Bytes} (wrap : α → Out S)
    (heffect : op.effect (dictOf Γ d) = dictOf Γ d) (hlive : ∀ v, d.find? key = some v → (live v).2 = d)
    (habsent : d.find? key = none → op.Answers (dictOf Γ d) (wrap absent))
    (hanswer : ∀ v, d.find? key = some v → op.Answers (dictOf Γ d) (wrap (live v).1)) :
    RefinedStep op d (wrap (Database.ifLive now absent live key d).1,
      (Database.ifLive now absent live key d).2) := by
  rw [hd.ifLive]
  cases hv : d.find? key with
  | none => exact refinedStep_read hd heffect (habsent hv)
  | some v =>
    show RefinedStep op d (wrap (live v).1, (live v).2)
    rw [hlive v hv]
    exact refinedStep_read hd heffect (hanswer v hv)

/-- Every operation of the store. -/
theorem refined_step (op : ℤ × StoreOp S Γ) (hd : Sound Γ d) :
    RefinedStep op.2 d (StoreOp.call op d) := by
  obtain ⟨now, op⟩ := op
  cases op with
  | on key op =>
    obtain ⟨hanswer, heffect, hentry, hframe⟩ := refined_call now op (hd key)
    refine ⟨hanswer, funext fun k => ?_, fun k v hv => ?_⟩
    · by_cases hk : k = key
      · subst hk
        show _ = Function.update (dictOf Γ d) k _ k
        rw [Function.update_self]
        exact heffect
      · show _ = Function.update (dictOf Γ d) key _ k
        rw [Function.update_of_ne hk, dictOf, objectAt]
        exact congrArg (Option.map (payload (Γ k))) (hframe k hk)
    · by_cases hk : k = key
      · subst hk
        exact hentry v hv
      · exact hd k v ((hframe k hk).symm.trans hv)
  | del key =>
    refine ⟨?_, dictOf_erase key d, fun k v hv => ?_⟩
    · show Out.flag (d.find? key).isSome = .flag (dictOf Γ d key).isSome
      rw [isSome_dictOf]
    · replace hv : (d.erase key).find? k = some v := hv
      by_cases hk : k = key
      · rw [hk, UMap.find?_erase_self] at hv
        cases hv
      · rw [UMap.find?_erase_ne _ hk] at hv
        exact hd k v hv
  | keyExists key =>
    refine refinedStep_ifLive hd now Out.flag rfl (fun _ _ => rfl) (fun hv => ?_)
      fun v hv => ?_
    all_goals
      show Out.flag _ = .flag (dictOf Γ d key).isSome
      rw [isSome_dictOf, hv]
      rfl
  | type key =>
    refine refinedStep_ifLive hd now Out.type rfl (fun _ _ => rfl) (fun hv => ?_)
      fun v hv => ?_
    · show Out.type _ = .type (if (dictOf Γ d key).isSome = true then Γ key else .string)
      rw [isSome_dictOf, hv]
      rfl
    · show Out.type v.type = .type (if (dictOf Γ d key).isSome = true then Γ key else .string)
      rw [isSome_dictOf, hv, (hd key v hv).type]
      rfl
  | ttl key =>
    refine refinedStep_ifLive hd now Out.time rfl (fun _ _ => rfl) (fun hv => ?_)
      fun v hv => ?_
    · show Out.time _ = .time (if (dictOf Γ d key).isSome = true then -1 else -2)
      rw [isSome_dictOf, hv]
      rfl
    · show Out.time (v.ttlSeconds now) = .time (if (dictOf Γ d key).isSome = true then -1 else -2)
      rw [isSome_dictOf, hv, RedisValue.ttlSeconds, if_pos (hd key v hv).lasting]
      rfl
  | pttl key =>
    refine refinedStep_ifLive hd now Out.time rfl (fun _ _ => rfl) (fun hv => ?_)
      fun v hv => ?_
    · show Out.time _ = .time (if (dictOf Γ d key).isSome = true then -1 else -2)
      rw [isSome_dictOf, hv]
      rfl
    · show Out.time (v.ttlMilliseconds now) = .time (if (dictOf Γ d key).isSome = true then -1 else -2)
      rw [isSome_dictOf, hv, RedisValue.ttlMilliseconds, if_pos (hd key v hv).lasting]
      rfl
  | persist key =>
    refine refinedStep_ifLive hd now Out.flag rfl (fun v hv => ?_) (fun hv => ?_)
      fun v hv => ?_
    · have hpersist : v.persist = v := by
        unfold RedisValue.persist
        rw [← (hd key v hv).lasting]
      show d.set key v.persist = d
      rw [hpersist]
      exact UMap.set_of_find? hv
    all_goals
      show Out.flag _ = .flag (dictOf Γ d key).isSome
      rw [isSome_dictOf, hv]
      rfl
  | keys =>
    refine refinedStep_read hd rfl ⟨_, rfl, d.nodup, fun key => ?_⟩
    show key ∈ d.keys ↔ (dictOf Γ d key).isSome = true
    rw [isSome_dictOf, UMap.mem_keys_iff]
  | sinter key others =>
    refine refinedStep_read hd rfl ⟨_, rfl, Database.nodup_sinter key others d, fun x => ?_⟩
    rw [Set.mem_iInter₂, Database.mem_sinter]
    simp only [setAt_dictOf hd, mem_members]
  | sunion key others =>
    refine refinedStep_read hd rfl ⟨_, rfl, Database.nodup_sunion _ d, fun x => ?_⟩
    rw [Set.mem_iUnion₂, Database.mem_sunion]
    simp only [setAt_dictOf hd, mem_members, exists_prop]
  | sdiff key others =>
    refine refinedStep_read hd rfl ⟨_, rfl, Database.nodup_sdiff key others d, fun x => ?_⟩
    rw [Set.mem_sdiff, Set.mem_iUnion₂, Database.mem_sdiff]
    simp only [setAt_dictOf hd, mem_members, exists_prop, not_exists, not_and]

/-- Every run of operations from the empty store, each key used with its type and nothing given a time
to live, answers as the dictionary of objects may, and ends in the dictionary that the operations
make. -/
theorem database_refines_dictionary (Γ : Bytes → RedisType) (ops : List (ℤ × StoreOp S Γ)) :
    Answered (fun op => op.2.effect) (fun op => op.2.Answers) ops (runOps StoreOp.call ops (∅ : Data S)).1
        (fun _ => none) ∧
      dictOf Γ (runOps StoreOp.call ops (∅ : Data S)).2 =
        ops.foldl (fun x op => op.2.effect x) fun _ => none :=
  runOps_answered (I := Sound Γ) (dictOf Γ) (fun op _ hd =>
    ⟨(refined_step op hd).answer, (refined_step op hd).effect, (refined_step op hd).sound⟩) ops nofun

end Store

end MinimalRedis
