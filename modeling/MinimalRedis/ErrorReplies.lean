import MinimalRedis.Expiry
import MinimalRedis.Processor

/-!
# What an error reply leaves behind

An error reply should mean that nothing visible happened.  Nearly every handler checks its arguments
before it acts; four check inside the loop that acts, so a bad argument is found **after** the
effects of the arguments before it:

* `HSET` has entered the pairs before the bad one,
* `WATCH` has recorded the keys, `SUBSCRIBE` and `UNSUBSCRIBE` have moved the client.

`error_atomic_iff` says exactly when such a prefix is visible (`PartialEffect`); everywhere else an
error reply is atomic.
-/

namespace MinimalRedis

open Lib Session

variable {S : Type} [Score S] {Λ : Type}

/-- An error reply starts with a minus sign. -/
def IsError (reply : Bytes) : Prop := reply.head? = some 45

instance (reply : Bytes) : Decidable (IsError reply) :=
  inferInstanceAs (Decidable (reply.head? = some 45))

/-! ### Replies by their first byte -/

theorem not_isError_cons {b : UInt8} (hb : b ≠ 45) (bs : Bytes) : ¬ IsError (b :: bs) := by
  simpa [IsError] using hb

@[simp] theorem not_isError_okReply : ¬ IsError okReply := by decide

@[simp] theorem not_isError_nullBulk : ¬ IsError nullBulk := by decide

@[simp] theorem not_isError_queuedReply : ¬ IsError queuedReply := by decide

@[simp] theorem not_isError_intReply (z : ℤ) : ¬ IsError (intReply z) :=
  not_isError_cons (by decide) _

@[simp] theorem not_isError_boolReply (b : Bool) : ¬ IsError (boolReply b) := not_isError_intReply _

@[simp] theorem not_isError_bulkReply (s : Bytes) : ¬ IsError (bulkReply s) :=
  not_isError_cons (by decide) _

@[simp] theorem not_isError_arrayReply (items : List Bytes) : ¬ IsError (arrayReply items) :=
  not_isError_cons (by decide) _

@[simp] theorem not_isError_hashReply (hash : UMap Bytes Bytes) : ¬ IsError (hashReply hash) :=
  not_isError_cons (by decide) _

@[simp] theorem not_isError_execReply (results : List Bytes) : ¬ IsError (execReply results) :=
  not_isError_cons (by decide) _

@[simp] theorem isError_errReply (msg : String) : IsError (errReply msg) := rfl

/-! ### Handlers that check before they act -/

/-- With an error reply, the data is the data before. -/
def Clean (h : Data S → Bytes × Data S) : Prop := ∀ d, IsError (h d).1 → (h d).2 = d

/-- The reply is never an error. -/
def Succeeds (h : Data S → Bytes × Data S) : Prop := ∀ d, ¬ IsError (h d).1

theorem Succeeds.clean {h : Data S → Bytes × Data S} (hs : Succeeds h) : Clean h :=
  fun d herr => absurd herr (hs d)

theorem Refuses.clean {msgs : List String} {h : Data S → Bytes × Data S} (hr : Refuses msgs h) :
    Clean h := by
  intro d _
  obtain ⟨msg, -, hmsg⟩ := hr
  rw [hmsg]

theorem clean_withKey {arity notBulk : String} {run : Bytes → Data S → Bytes × Data S}
    (h : ∀ key, Clean (run key)) (args : Args) : Clean (withKey arity notBulk run args) := by
  rcases withKey_cases arity notBulk run args with hr | ⟨name, key, -, hrun⟩
  · exact hr.clean
  · rw [hrun]
    exact h key

theorem clean_withTwo {arity notBulk : String} {run : Bytes → Bytes → Data S → Bytes × Data S}
    (h : ∀ key arg, Clean (run key arg)) (args : Args) : Clean (withTwo arity notBulk run args) := by
  rcases withTwo_cases arity notBulk run args with hr | ⟨name, key, arg, -, hrun⟩
  · exact hr.clean
  · rw [hrun]
    exact h key arg

theorem clean_withKeyAndRest {arity notBulkKey notBulkRest : String}
    {run : Bytes → List Bytes → Data S → Bytes × Data S} (h : ∀ key values, Clean (run key values))
    (args : Args) : Clean (withKeyAndRest arity notBulkKey notBulkRest run args) := by
  rcases withKeyAndRest_cases arity notBulkKey notBulkRest run args with
    hr | ⟨name, key, v, vs, values, -, -, hrun⟩
  · exact hr.clean
  · rw [hrun]
    exact h key values

theorem clean_withKeys {arity notBulk : String} {read : List Bytes → Data S → Bytes} (args : Args) :
    Clean (withKeys arity notBulk read args) := fun d _ => withKeys_snd arity notBulk read args d

theorem clean_withRange {accepts : ℕ → Bool} {arity notBulk notInt : String}
    {read : Bytes → ℤ → ℤ → Data S → Bytes} (args : Args) :
    Clean (withRange accepts arity notBulk notInt read args) :=
  fun d _ => withRange_snd accepts arity notBulk notInt read args d

theorem clean_withDuration {arity notBulk notInt : String}
    {run : Bytes → ℤ → Data S → Bytes × Data S} (h : ∀ key n, Clean (run key n)) (args : Args) :
    Clean (withDuration arity notBulk notInt run args) := by
  refine clean_withTwo (fun key arg d => ?_) args
  split
  · exact fun _ => rfl
  · exact h _ _ d

theorem succeeds_popReply (now : ℤ) (key : Bytes) (pop : Data S → Bytes × Data S) :
    Succeeds fun d => popReply now key (pop d) := by
  intro d
  simp only [popReply]
  split
  · split <;> simp
  · simp

theorem clean_handleZadd (args : Args) : Clean (S := S) (handleZadd args) := by
  by_cases hargs : ∃ key rest, PairArgs key rest args
  · obtain ⟨key, rest, hpair⟩ := hargs
    intro d herr
    cases hps : (zaddPairs rest : Except String (List (S × Bytes))) with
    | error msg => rw [handleZadd_of_error hpair hps]
    | ok ps =>
      rw [handleZadd_of_ok hpair hps] at herr
      exact absurd herr (not_isError_boolReply _)
  · exact (handleZadd_refuses hargs).clean

/-! ### The data commands other than `HSET` -/

theorem clean_handleLindex (now : ℤ) (args : Args) : Clean (S := S) (handleLindex now args) := by
  intro d
  unfold handleLindex
  split
  · split
    · exact fun _ => rfl
    · split
      · exact fun _ => rfl
      · dsimp only
        split
        · exact fun herr => absurd herr not_isError_nullBulk
        · exact fun herr => absurd herr (not_isError_bulkReply _)
  · exact fun _ => rfl

/-! ### Sessions -/

/-- With an error reply, the session is the session before. -/
def Quiet (h : Session S Λ → Bytes × Session S Λ) : Prop := ∀ s, IsError (h s).1 → (h s).2 = s

theorem Clean.liftData {h : Data S → Bytes × Data S} (hc : Clean h) :
    Quiet (Λ := Λ) (liftData h) := by
  intro s herr
  show s.setData _ = s
  rw [hc _ herr]
  rfl

theorem quiet_handleSave (args : Args) : Quiet (S := S) (Λ := Λ) (handleSave args) := by
  intro s
  unfold handleSave
  split
  · exact fun _ => rfl
  · split
    · exact fun herr => absurd herr not_isError_okReply
    · exact fun _ => rfl

theorem quiet_handleMulti (args : Args) : Quiet (S := S) (Λ := Λ) (handleMulti args) := by
  intro s
  unfold handleMulti
  split
  · exact fun _ => rfl
  · split
    · exact fun _ => rfl
    · exact fun herr => absurd herr not_isError_okReply

theorem quiet_handleDiscard (args : Args) : Quiet (S := S) (Λ := Λ) (handleDiscard args) := by
  intro s
  unfold handleDiscard
  split
  · exact fun _ => rfl
  · split
    · exact fun _ => rfl
    · exact fun herr => absurd herr not_isError_okReply

theorem quiet_handleUnwatch (args : Args) : Quiet (S := S) (Λ := Λ) (handleUnwatch args) := by
  intro s
  unfold handleUnwatch
  split
  · exact fun _ => rfl
  · exact fun herr => absurd herr not_isError_okReply

theorem quiet_handlePublish (args : Args) : Quiet (S := S) (Λ := Λ) (handlePublish args) := by
  intro s
  unfold handlePublish
  split
  · split
    · exact fun herr => absurd herr (not_isError_intReply _)
    · exact fun _ => rfl
  · exact fun _ => rfl

/-- `SCRIPT LOAD` of a refused script leaves the cache alone. -/
theorem scriptLoad_of_isError {script : Bytes} {e : LuaScriptingEngine Λ}
    (h : IsError (LuaScriptingEngine.scriptLoad script e).1) :
    (LuaScriptingEngine.scriptLoad script e).2 = e := by
  unfold LuaScriptingEngine.scriptLoad at h ⊢
  split
  · rfl
  · rename_i hvalid
    rw [if_neg hvalid] at h
    exact absurd h (not_isError_cons (by decide) _)

theorem quiet_handleScript (args : Args) : Quiet (S := S) (Λ := Λ) (handleScript args) := by
  intro s
  unfold handleScript
  split
  · split
    · exact fun _ => rfl
    · split
      · split
        · intro herr
          show s.setEngine _ = s
          rw [scriptLoad_of_isError herr]
          rfl
        · exact fun _ => rfl
      · split
        · split <;> exact fun _ => rfl
        · split
          · exact fun herr => absurd herr not_isError_okReply
          · exact fun _ => rfl
  · exact fun _ => rfl

/-- `EXEC` with an error reply other than the abort. -/
theorem handleExec_of_isError {now : ℤ} {args : Args} {s : Session S Λ}
    (h : IsError (handleExec now args s).1) (habort : (handleExec now args s).1 ≠ execAbortReply) :
    (handleExec now args s).2 = s := by
  revert h habort
  unfold handleExec
  split
  · exact fun _ _ => rfl
  · split
    · exact fun _ _ => rfl
    · split
      · exact fun _ habort => absurd rfl habort
      · exact fun herr => absurd herr (not_isError_execReply _)

/-- The commands whose loop acts before all arguments are checked, and the excluded script calls. -/
def Command.checksLate : Command → Bool
  | .hset => true
  | .watch => true
  | .subscribe => true
  | .unsubscribe => true
  | .eval => true
  | .evalsha => true
  | _ => false

/-- One lemma for the whole direct path. -/
theorem dispatch_of_isError {env : Env Λ} {now : ℤ} {cmd : Option Command} {args : Args}
    {s : Session S Λ} (hcmd : ∀ c, cmd = some c → c.checksLate = false)
    (h : IsError (dispatch env now cmd args s).1)
    (habort : (dispatch env now cmd args s).1 ≠ execAbortReply) :
    (dispatch env now cmd args s).2 = s := by
  have hdata : ∀ {h : Data S → Bytes × Data S}, Clean h → IsError (liftData h s).1 →
      (liftData h s).2 = s := fun hc => hc.liftData s
  cases cmd with
  | none => rfl
  | some c =>
    have hlate := hcmd c rfl
    cases c with
    | hset | watch | subscribe | unsubscribe | eval | evalsha => simp [Command.checksLate] at hlate
    | exec => exact handleExec_of_isError h habort
    | save => exact quiet_handleSave args s h
    | multi => exact quiet_handleMulti args s h
    | discard => exact quiet_handleDiscard args s h
    | unwatch => exact quiet_handleUnwatch args s h
    | publish => exact quiet_handlePublish args s h
    | script => exact quiet_handleScript args s h
    | cluster | info => rfl
    | keys =>
      refine hdata (fun d _ => ?_) h
      unfold handleKeys
      split <;> rfl
    | lindex => exact hdata (clean_handleLindex now args) h
    | zadd => exact hdata (clean_handleZadd args) h
    | lpop | rpop =>
      exact hdata (clean_withKey (fun key => (succeeds_popReply now key _).clean) args) h
    | lrange | zrange | zrevrange => exact hdata (clean_withRange args) h
    | sinter | sunion | sdiff => exact hdata (clean_withKeys args) h
    | set | sismember =>
      exact hdata (clean_withTwo (fun _ _ => Succeeds.clean fun d => by simp) args) h
    | get =>
      refine hdata (clean_withKey (fun key => Succeeds.clean fun d => ?_) args) h
      dsimp only
      split
      · simp
      · split <;> simp
    | del | existsKey | llen | scard | smembers | hlen | hkeys | hvals | hgetall | zcard | ttl | pttl
    | persist =>
      exact hdata (clean_withKey (fun _ => Succeeds.clean fun d => by simp) args) h
    | type =>
      refine hdata (clean_withKey (fun key => Succeeds.clean fun d => ?_) args) h
      dsimp only
      split <;> exact not_isError_cons (by decide) _
    | lpush | rpush | sadd | srem | hdel | zrem =>
      exact hdata (clean_withKeyAndRest (fun _ _ => Succeeds.clean fun d => by simp) args) h
    | hget =>
      refine hdata (clean_withTwo (fun key field => Succeeds.clean fun d => ?_) args) h
      dsimp only
      split <;> simp
    | zscore =>
      refine hdata (clean_withTwo (fun key member => Succeeds.clean fun d => ?_) args) h
      dsimp only
      split
      · split <;> simp
      · simp
    | zrank =>
      refine hdata (clean_withTwo (fun key member => Succeeds.clean fun d => ?_) args) h
      dsimp only
      split <;> simp
    | expire | pexpire =>
      exact hdata (clean_withDuration (fun _ _ => Succeeds.clean fun d => by simp) args) h

/-! ### Argument prefixes -/

/-- The contents of the bulk strings before the first value of another type. -/
def leadingBulk : List RespValue → List Bytes
  | [] => []
  | v :: vs =>
      match v.bulk? with
      | none => []
      | some s => s :: leadingBulk vs

/-- The pairs of bulk strings before the first pair that is not one. -/
def leadingPairs : List RespValue → List (Bytes × Bytes)
  | field :: value :: rest =>
      match field.bulk?, value.bulk? with
      | some field, some value => (field, value) :: leadingPairs rest
      | _, _ => []
  | _ => []

theorem watchLoop_eq (d : Data S) (vs : List RespValue) (watched : UMap Bytes UInt64) :
    watchLoop d vs watched = ((allBulk vs).isSome,
      watched.setMany ((leadingBulk vs).map fun key => (key, Database.getModCount key d))) := by
  induction vs generalizing watched with
  | nil => rfl
  | cons v vs ih =>
    cases hv : v.bulk? with
    | none => simp [watchLoop, allBulk, leadingBulk, hv, UMap.setMany]
    | some key =>
      simp only [watchLoop, allBulk, leadingBulk, hv, ih, Option.bind_some, Option.isSome_map]
      rfl

theorem channelLoop_eq (enter : Bytes → PubSubManager → PubSubManager) (line : Bytes → Bytes)
    (vs : List RespValue) (r : PubSubManager) :
    channelLoop enter line vs r = ((allBulk vs).map (·.flatMap line),
      (leadingBulk vs).foldl (fun r channel => enter channel r) r) := by
  induction vs generalizing r with
  | nil => rfl
  | cons v vs ih =>
    cases hv : v.bulk? with
    | none => simp [channelLoop, allBulk, leadingBulk, hv]
    | some channel =>
      simp only [channelLoop, allBulk, leadingBulk, hv, ih, Option.bind_some, Option.map_map]
      rfl

theorem hsetLoop_eq (key : Bytes) (vs : List RespValue) (n : ℕ) (d : Data S)
    (heven : vs.length % 2 = 0) :
    hsetLoop key vs n d = ((allBulk vs).map fun _ => n + vs.length / 2,
      (leadingPairs vs).foldl (fun d p => Database.hset key p.1 p.2 d) d) := by
  fun_induction hsetLoop key vs n d with
  | case1 field value rest n d f x hx hf ih =>
    rw [List.length_cons, List.length_cons] at heven
    have hhalf : n + (rest.length + 1 + 1) / 2 = n + 1 + rest.length / 2 := by omega
    rw [ih (by omega)]
    simp only [allBulk, hf, hx, Option.bind_some, Option.map_map, leadingPairs, List.length_cons,
      List.foldl_cons, hhalf]
    rfl
  | case2 field value rest n d hbad =>
    cases hf : field.bulk? with
    | none => simp [allBulk, leadingPairs, hf]
    | some f =>
      cases hx : value.bulk? with
      | none => simp [allBulk, leadingPairs, hf, hx]
      | some x => exact absurd hx (hbad f x hf)
  | case3 vs n d hshort =>
    match vs with
    | [] => simp [allBulk, leadingPairs]
    | [v] => simp at heven
    | a :: b :: rest => exact absurd rfl (hshort a b rest)

/-! ### `HSET` -/

/-- `HSET` enters the pairs before its first bad argument, and counts that when there is none. -/
theorem handleHset_of_pairArgs {key : Bytes} {rest : List RespValue} {args : Args}
    (h : PairArgs key rest args) (d : Data S) :
    let entered := (leadingPairs rest).foldl (fun d p => Database.hset key p.1 p.2 d) d
    handleHset args d =
      if allBulk rest = none then (errReply "ERR HSET field and value must be bulk strings", entered)
      else (intReply (rest.length / 2 : ℕ), Database.incrementModCount key entered) := by
  intro entered
  rw [handleHset, if_neg h.arity]
  obtain ⟨name, rfl, hlen, heven⟩ := h
  simp only [List.getD_cons_succ, List.getD_cons_zero, RespValue.bulk?, List.drop_succ_cons,
    List.drop_zero, hsetLoop_eq key rest 0 d heven]
  cases allBulk rest with
  | none => rfl
  | some values =>
    have hpos : rest.length / 2 > 0 := by omega
    simp only [Option.map_some, reduceCtorEq, if_false, Nat.zero_add, hpos, if_true]
    rfl

/-- The pairs a failing `HSET` has entered amount to one assignment. -/
theorem foldl_hset (key : Bytes) {pairs : List (Bytes × Bytes)} (hne : pairs ≠ []) (d : Data S) :
    pairs.foldl (fun d p => Database.hset key p.1 p.2 d) d =
      d.set key { (d.find? key).getD default with
        type := .hash
        hashVal := ((d.find? key).getD default).hashVal.setMany pairs } := by
  induction pairs generalizing d with
  | nil => exact absurd rfl hne
  | cons p pairs ih =>
    rcases eq_or_ne pairs [] with rfl | hne'
    · rfl
    · rw [List.foldl_cons, ih hne']
      simp only [Database.hset, Database.writeThrough, UMap.find?_set_self, UMap.set_set,
        Option.getD_some]
      rfl

/-- Entering pairs at `key` is invisible: the entry has expired, or it is a hash that has each
field's last value already. -/
def HsetHidden (now : ℤ) (key : Bytes) (pairs : List (Bytes × Bytes)) (d : Data S) : Prop :=
  ∃ v, d.find? key = some v ∧ (v.isExpired now = true ∨
    v.type = .hash ∧ ∀ f x, lookupLast f pairs = some x → v.hashVal.find? f = some x)

theorem purge_foldl_hset_iff (now : ℤ) (key : Bytes) {pairs : List (Bytes × Bytes)}
    (hne : pairs ≠ []) (d : Data S) :
    purge now (pairs.foldl (fun d p => Database.hset key p.1 p.2 d) d) = purge now d ↔
      HsetHidden now key pairs d := by
  rw [foldl_hset key hne]
  have hfind := fun w : RedisValue S => UMap.find?_set_self d key w
  cases hv : d.find? key with
  | none =>
    -- a fresh entry has no expiry, so it is visible
    refine ⟨fun h => ?_, fun ⟨v, hv', _⟩ => by simp [hv] at hv'⟩
    let w : RedisValue S := { (none : Option (RedisValue S)).getD default with
      type := .hash
      hashVal := ((none : Option (RedisValue S)).getD default).hashVal.setMany pairs }
    have hlive : (purge now (d.set key w)).find? key = some w :=
      find?_purge_of_live (hfind w) (RedisValue.isExpired_of_expiryTime_zero rfl now)
    rw [h, find?_purge_of_none hv] at hlive
    simp at hlive
  | some v =>
    rw [Option.getD_some]
    cases hexp : v.isExpired now with
    | true => exact ⟨fun _ => ⟨v, hv, .inl hexp⟩, fun _ => purge_set hv hexp hexp⟩
    | false =>
      constructor
      · intro h
        let w : RedisValue S := { v with type := .hash, hashVal := v.hashVal.setMany pairs }
        have hlive : (purge now (d.set key w)).find? key = some w :=
          find?_purge_of_live (hfind w) hexp
        rw [h, find?_purge_of_live hv hexp, Option.some.injEq] at hlive
        refine ⟨v, hv, .inr ⟨congrArg RedisValue.type hlive, ?_⟩⟩
        exact UMap.setMany_eq_self_iff.mp (congrArg RedisValue.hashVal hlive).symm
      · rintro ⟨v', hv', hhid⟩
        obtain rfl : v = v' := Option.some.inj (hv.symm.trans hv')
        rcases hhid with h | ⟨htype, hsame⟩
        · simp [hexp] at h
        · have hself : { v with type := .hash, hashVal := v.hashVal.setMany pairs } = v := by
            rw [UMap.setMany_eq_self_iff.mpr hsame, ← htype]
          rw [hself, UMap.set_of_find? hv]

/-! ### `WATCH`, `SUBSCRIBE`, `UNSUBSCRIBE` -/

theorem lookupLast_map_key (count : Bytes → UInt64) (keys : List Bytes) (key : Bytes) :
    lookupLast key (keys.map fun k => (k, count k)) =
      if key ∈ keys then some (count key) else none := by
  induction keys with
  | nil => rfl
  | cons k keys ih =>
    rw [List.map_cons, lookupLast, ih]
    by_cases hk : k = key
    · by_cases hmem : key ∈ keys <;> simp [hk, hmem]
    · by_cases hmem : key ∈ keys <;> simp [hk, Ne.symm hk, hmem]

/-- Recording keys changes nothing when each is watched at its current counter. -/
theorem setMany_counts_eq_self_iff {watched : UMap Bytes UInt64} {keys : List Bytes}
    {count : Bytes → UInt64} :
    watched.setMany (keys.map fun k => (k, count k)) = watched ↔
      ∀ key ∈ keys, watched.find? key = some (count key) := by
  rw [UMap.setMany_eq_self_iff]
  constructor
  · intro h key hkey
    exact h key _ (by rw [lookupLast_map_key, if_pos hkey])
  · intro h key n hn
    rw [lookupLast_map_key] at hn
    split at hn
    · rename_i hkey
      rw [h key hkey, hn]
    · simp at hn

namespace PubSubManager

theorem count_subscribe (fd fd' : ℤ) (channel channel' : Bytes) (r : PubSubManager) :
    ((r.subscribe fd channel).getSubscribers channel').count fd' =
      (r.getSubscribers channel').count fd' + if channel' = channel ∧ fd' = fd then 1 else 0 := by
  by_cases hc : channel' = channel
  · subst hc
    have hsubs : (r.subscribe fd channel').getSubscribers channel' =
        r.getSubscribers channel' ++ [fd] := by
      show (UMap.find? (r.subscribers.set channel' _) channel').getD [] = _
      rw [UMap.find?_set_self]
      rfl
    rw [hsubs, List.count_append]
    by_cases hfd : fd' = fd
    · simp [hfd]
    · simp [hfd, Ne.symm hfd]
  · have hsame : (r.subscribe fd channel).getSubscribers channel' = r.getSubscribers channel' := by
      show (UMap.find? (r.subscribers.set channel _) channel').getD [] = _
      rw [UMap.find?_set_ne _ _ hc]
      rfl
    rw [hsame, if_neg (fun h => hc h.1), Nat.add_zero]

/-- Every repetition of a channel is entered. -/
theorem count_foldl_subscribe (fd fd' : ℤ) (channels : List Bytes) (channel : Bytes)
    (r : PubSubManager) :
    ((channels.foldl (fun r c => r.subscribe fd c) r).getSubscribers channel).count fd' =
      (r.getSubscribers channel).count fd' + if fd' = fd then channels.count channel else 0 := by
  induction channels generalizing r with
  | nil => simp
  | cons c channels ih =>
    rw [List.foldl_cons, ih, count_subscribe, List.count_cons]
    by_cases hfd : fd' = fd
    · by_cases hc : c = channel
      · simp [hfd, hc]
        omega
      · simp [hfd, hc, Ne.symm hc]
    · simp [hfd]

theorem foldl_subscribe_eq_self_iff (fd : ℤ) (channels : List Bytes) (r : PubSubManager) :
    channels.foldl (fun r c => r.subscribe fd c) r = r ↔ channels = [] := by
  constructor
  · intro h
    cases channels with
    | nil => rfl
    | cons c channels =>
      have hcount := count_foldl_subscribe fd fd (c :: channels) c r
      rw [h, if_pos rfl, List.count_cons_self] at hcount
      omega
  · rintro rfl
    rfl

/-- Unsubscribing the client from `channel` does something: the channel has an empty vector, or one
the client is in. -/
def Moves (fd : ℤ) (channel : Bytes) (r : PubSubManager) : Prop :=
  ∃ subs, r.subscribers.find? channel = some subs ∧ (subs = [] ∨ fd ∈ subs)

theorem unsubscribe_of_not_moves {fd : ℤ} {channel : Bytes} {r : PubSubManager}
    (h : ¬ r.Moves fd channel) : r.unsubscribe fd channel = r := by
  cases hsubs : r.subscribers.find? channel with
  | none => simp [unsubscribe, hsubs, UMap.erase_set, UMap.erase_of_find?_none hsubs]
  | some subs =>
    have hne : subs ≠ [] := fun e => h ⟨subs, hsubs, .inl e⟩
    have hfd : fd ∉ subs := fun e => h ⟨subs, hsubs, .inr e⟩
    have hfilter : subs.filter (· ≠ fd) = subs :=
      List.filter_eq_self.mpr fun x hx => by
        simpa using fun e : x = fd => hfd (e ▸ hx)
    simp only [unsubscribe, hsubs, Option.getD_some, hfilter, if_neg hne, UMap.set_of_find? hsubs]

theorem find?_unsubscribe_ne (fd : ℤ) {channel channel' : Bytes} (h : channel' ≠ channel)
    (r : PubSubManager) :
    (r.unsubscribe fd channel).subscribers.find? channel' = r.subscribers.find? channel' := by
  simp only [unsubscribe]
  split
  · rw [UMap.find?_erase_ne _ h, UMap.find?_set_ne _ _ h]
  · rw [UMap.find?_set_ne _ _ h]

theorem not_moves_unsubscribe (fd : ℤ) (channel : Bytes) (r : PubSubManager) :
    ¬ (r.unsubscribe fd channel).Moves fd channel := by
  rintro ⟨subs, hsubs, hmoves⟩
  simp only [unsubscribe] at hsubs
  split at hsubs
  · simp at hsubs
  · rename_i hne
    rw [UMap.find?_set_self, Option.some.injEq] at hsubs
    rcases hmoves with rfl | hfd
    · exact hne hsubs
    · rw [← hsubs] at hfd
      simp at hfd

theorem not_moves_foldl_unsubscribe {fd : ℤ} {channels : List Bytes} {channel : Bytes}
    {r : PubSubManager} (h : channel ∈ channels ∨ ¬ r.Moves fd channel) :
    ¬ (channels.foldl (fun r c => r.unsubscribe fd c) r).Moves fd channel := by
  induction channels generalizing r with
  | nil => exact h.resolve_left (by simp)
  | cons c channels ih =>
    refine ih ?_
    by_cases hc : channel = c
    · exact .inr (hc ▸ not_moves_unsubscribe fd channel r)
    · rcases h with hmem | hstay
      · exact .inl ((List.mem_cons.mp hmem).resolve_left hc)
      · refine .inr fun ⟨subs, hsubs, hmoves⟩ => hstay ⟨subs, ?_, hmoves⟩
        rwa [find?_unsubscribe_ne fd hc] at hsubs

theorem foldl_unsubscribe_eq_self_iff (fd : ℤ) (channels : List Bytes) (r : PubSubManager) :
    channels.foldl (fun r c => r.unsubscribe fd c) r = r ↔
      ∀ channel ∈ channels, ¬ r.Moves fd channel := by
  constructor
  · intro h channel hmem
    have hstay : ¬ (channels.foldl (fun r c => r.unsubscribe fd c) r).Moves fd channel :=
      not_moves_foldl_unsubscribe (.inl hmem)
    rwa [h] at hstay
  · intro h
    induction channels with
    | nil => rfl
    | cons c channels ih =>
      rw [List.foldl_cons, unsubscribe_of_not_moves (h c (by simp))]
      exact ih fun channel hmem => h channel (by simp [hmem])

end PubSubManager

/-! ### Exactly when error replies are atomic -/

/-- What a client can see of a session has not changed. -/
structure SameVisible (now : ℤ) (s s' : Session S Λ) : Prop where
  data : purge now s'.world.data = purge now s.world.data
  pubsub : s'.world.pubsub = s.world.pubsub
  watchedKeys : s'.self.watchedKeys = s.self.watchedKeys
  inTransaction : s'.self.inTransaction = s.self.inTransaction
  transactionQueue : s'.self.transactionQueue = s.self.transactionQueue

theorem SameVisible.refl (now : ℤ) (s : Session S Λ) : SameVisible now s s :=
  ⟨rfl, rfl, rfl, rfl, rfl⟩

def Command.isScriptCall : Command → Bool
  | .eval => true
  | .evalsha => true
  | _ => false

/-- An error reply, unless it is the abort of `EXEC`, comes with the session as it was. -/
def Atomic (now : ℤ) (s : Session S Λ) (x : Bytes × Session S Λ) : Prop :=
  IsError x.1 → x.1 ≠ execAbortReply → SameVisible now s x.2

/-- `processCommand` replies to `command` atomically; script calls are left out. -/
def ErrorAtomic (env : Env Λ) (now : ℤ) (command : RespValue) (s : Session S Λ) : Prop :=
  (∀ name rest cmd, command = .array (.bulkString name :: rest) → Command.ofName name = some cmd →
    cmd.isScriptCall = false) → Atomic now s (processCommand env now command s)

/-- A failing `HSET` has entered pairs that can be seen. -/
def HsetPartial (now : ℤ) (rest : List RespValue) (d : Data S) : Prop :=
  ∃ key tail, rest = .bulkString key :: tail ∧ tail.length % 2 = 0 ∧ allBulk tail = none ∧
    leadingPairs tail ≠ [] ∧ ¬ HsetHidden now key (leadingPairs tail) d

/-- The arguments before the first bad one have a visible effect. -/
def PartialArgs (now : ℤ) (cmd : Option Command) (rest : List RespValue) (s : Session S Λ) : Prop :=
  match cmd with
  | some .hset => HsetPartial now rest s.world.data
  | some .watch => allBulk rest = none ∧
      ∃ key ∈ leadingBulk rest,
        s.self.watchedKeys.find? key ≠ some (Database.getModCount key s.world.data)
  | some .subscribe => allBulk rest = none ∧ leadingBulk rest ≠ []
  | some .unsubscribe => allBulk rest = none ∧
      ∃ channel ∈ leadingBulk rest, s.world.pubsub.Moves s.self.clientFd channel
  | _ => False

/-- A command outside a transaction whose bad argument comes after a visible effect. -/
def PartialEffect (now : ℤ) (command : RespValue) (s : Session S Λ) : Prop :=
  ∃ name rest, command = .array (.bulkString name :: rest) ∧ s.self.inTransaction = false ∧
    PartialArgs now (Command.ofName name) rest s

theorem two_le_length_of_leadingPairs {rest : List RespValue} (h : leadingPairs rest ≠ []) :
    2 ≤ rest.length := by
  cases rest with
  | nil => exact absurd rfl h
  | cons a rest =>
    cases rest with
    | nil => exact absurd rfl h
    | cons b rest =>
      simp only [List.length_cons]
      omega

theorem handleHset_atomic_iff (now : ℤ) (name : RespValue) (rest : List RespValue) (d : Data S) :
    (IsError (handleHset (name :: rest) d).1 →
      purge now (handleHset (name :: rest) d).2 = purge now d) ↔ ¬ HsetPartial now rest d := by
  by_cases hargs : ∃ key tail, PairArgs key tail (name :: rest)
  · obtain ⟨key, tail, hpair⟩ := hargs
    rw [handleHset_of_pairArgs hpair d]
    obtain ⟨_, heq, hlen, heven⟩ := hpair
    obtain ⟨rfl, rfl⟩ := List.cons.inj heq
    -- the key and the pairs that `HsetPartial` speaks of are these
    have hvisible : HsetPartial now (.bulkString key :: tail) d ↔ allBulk tail = none ∧
        leadingPairs tail ≠ [] ∧ ¬ HsetHidden now key (leadingPairs tail) d := by
      constructor
      · intro h
        obtain ⟨key', tail', heq, -, hall, hne, hvisible⟩ := h
        obtain ⟨hkey, rfl⟩ := List.cons.inj heq
        obtain rfl := RespValue.bulkString.inj hkey
        exact ⟨hall, hne, hvisible⟩
      · intro h
        exact ⟨key, tail, rfl, heven, h⟩
    rw [hvisible]
    by_cases hall : allBulk tail = none
    · rw [if_pos hall, forall_prop_of_true (isError_errReply _)]
      rcases eq_or_ne (leadingPairs tail) [] with hnil | hne
      · refine iff_of_true (by rw [hnil]; rfl) ?_
        intro h
        exact h.2.1 hnil
      · rw [purge_foldl_hset_iff now key hne]
        simp [hall, hne]
    · rw [if_neg hall]
      refine iff_of_true (fun herr => absurd herr (not_isError_intReply _)) ?_
      intro h
      exact hall h.1
  · obtain ⟨msg, -, hmsg⟩ := handleHset_refuses (S := S) hargs
    rw [hmsg]
    refine iff_of_true (fun _ => rfl) ?_
    intro h
    obtain ⟨key, tail, rfl, heven, -, hne, -⟩ := h
    exact hargs ⟨key, tail, name, rfl, two_le_length_of_leadingPairs hne, heven⟩

theorem handleHset_ne_execAbortReply (args : Args) (d : Data S) :
    (handleHset args d).1 ≠ execAbortReply := by
  by_cases hargs : ∃ key rest, PairArgs key rest args
  · obtain ⟨key, rest, hpair⟩ := hargs
    rw [handleHset_of_pairArgs hpair d]
    split
    · show errReply _ ≠ execAbortReply
      decide
    · simp [intReply, execAbortReply, errReply]
  · obtain ⟨msg, hmem, hmsg⟩ := handleHset_refuses (S := S) hargs
    rw [hmsg]
    simp only [List.mem_cons, List.not_mem_nil, or_false] at hmem
    rcases hmem with rfl | rfl
    · show errReply _ ≠ execAbortReply
      decide
    · show errReply _ ≠ execAbortReply
      decide

theorem hset_atomic_iff (now : ℤ) (name : RespValue) (rest : List RespValue) (s : Session S Λ) :
    Atomic now s (liftData (handleHset (name :: rest)) s) ↔
      ¬ PartialArgs now (some .hset) rest s := by
  refine Iff.trans ?_ (handleHset_atomic_iff now name rest s.world.data)
  constructor
  · intro h herr
    exact (h herr (handleHset_ne_execAbortReply _ _)).data
  · intro h herr _
    exact ⟨h herr, rfl, rfl, rfl, rfl⟩

theorem watch_atomic_iff (now : ℤ) (name : RespValue) (rest : List RespValue) (s : Session S Λ)
    (hout : s.self.inTransaction = false) :
    Atomic now s (handleWatch (name :: rest) s) ↔ ¬ PartialArgs now (some .watch) rest s := by
  cases rest with
  | nil => exact iff_of_true (fun _ _ => SameVisible.refl now s) (by simp [PartialArgs, allBulk])
  | cons v vs =>
    simp only [handleWatch, hout, List.length_cons, List.tail_cons, watchLoop_eq]
    rw [if_neg (by omega), if_neg (by simp)]
    cases hall : allBulk (v :: vs) with
    | some keys =>
      exact iff_of_true (fun herr => absurd herr not_isError_okReply) (by simp [PartialArgs, hall])
    | none =>
      simp only [PartialArgs, hall, true_and, not_exists, not_and, not_not]
      rw [← setMany_counts_eq_self_iff]
      constructor
      · intro h
        exact (h (isError_errReply _) (by show errReply _ ≠ execAbortReply; decide)).watchedKeys
      · intro h _ _
        exact ⟨rfl, rfl, h, hout.symm, rfl⟩

/-- `SUBSCRIBE` and `UNSUBSCRIBE` in one: an error reply comes with a bad channel, and the registry
is then that of the channels before it. -/
theorem channel_atomic_iff (now : ℤ) {enter : Bytes → PubSubManager → PubSubManager}
    {line : Bytes → Bytes} (hline : ∀ c, (line c).head? = some 42) {msg : String}
    (hmsg : errReply msg ≠ execAbortReply) (vs : List RespValue) (s : Session S Λ) :
    Atomic now s (((channelLoop enter line vs s.world.pubsub).1).getD (errReply msg),
        s.setPubsub (channelLoop enter line vs s.world.pubsub).2) ↔
      ¬ (allBulk vs = none ∧
        (leadingBulk vs).foldl (fun r c => enter c r) s.world.pubsub ≠ s.world.pubsub) := by
  simp only [channelLoop_eq]
  cases hall : allBulk vs with
  | some values =>
    refine iff_of_true (fun herr => ?_) (by simp)
    cases values with
    | nil => simp [IsError] at herr
    | cons c values =>
      have hhead : (line c ++ values.flatMap line).head? = some 42 := by
        rw [List.head?_append, hline c]
        rfl
      have herr' : (line c ++ values.flatMap line).head? = some 45 := herr
      rw [hhead] at herr'
      simp at herr'
  | none =>
    simp only [true_and, not_not]
    constructor
    · intro h
      exact (h (isError_errReply _) hmsg).pubsub
    · intro h _ _
      exact ⟨rfl, h, rfl, rfl, rfl⟩

theorem subscribe_atomic_iff (now : ℤ) (name : RespValue) (rest : List RespValue)
    (s : Session S Λ) :
    Atomic now s (handleSubscribe (name :: rest) s) ↔
      ¬ PartialArgs now (some .subscribe) rest s := by
  cases rest with
  | nil => exact iff_of_true (fun _ _ => SameVisible.refl now s) (by simp [PartialArgs, allBulk])
  | cons v vs =>
    simp only [handleSubscribe, List.length_cons, List.tail_cons]
    rw [if_neg (by omega), channel_atomic_iff now (fun _ => rfl) (by decide), ne_eq,
      PubSubManager.foldl_subscribe_eq_self_iff]
    rfl

theorem unsubscribe_atomic_iff (now : ℤ) (name : RespValue) (rest : List RespValue)
    (s : Session S Λ) :
    Atomic now s (handleUnsubscribe (name :: rest) s) ↔
      ¬ PartialArgs now (some .unsubscribe) rest s := by
  cases rest with
  | nil => exact iff_of_true (fun _ _ => SameVisible.refl now s) (by simp [PartialArgs, allBulk])
  | cons v vs =>
    simp only [handleUnsubscribe, List.length_cons, List.tail_cons]
    rw [if_neg (by omega), channel_atomic_iff now (fun _ => rfl) (by decide), ne_eq,
      PubSubManager.foldl_unsubscribe_eq_self_iff]
    simp [PartialArgs]

theorem Command.not_routed_of_checksLate {c : Command} (h : c.checksLate = true) :
    c.routed = false := by
  cases c <;> first | rfl | simp [checksLate] at h

/-- The commands that check first have atomic error replies, routed or not. -/
theorem atomic_of_checksEarly (env : Env Λ) (now : ℤ) {cmd : Option Command} (args : Args)
    (s : Session S Λ) (hearly : ∀ c, cmd = some c → c.checksLate = false) :
    Atomic now s (routeAndDispatch env now cmd args s) := by
  unfold routeAndDispatch
  split
  · exact fun _ _ => SameVisible.refl now s
  · intro herr habort
    rw [dispatch_of_isError hearly herr habort]
    exact SameVisible.refl now s

/-- The direct path: an error reply is atomic unless the arguments before the bad one show. -/
theorem direct_atomic_iff (env : Env Λ) (now : ℤ) (cmd : Option Command) (name : RespValue)
    (rest : List RespValue) (s : Session S Λ) (hout : s.self.inTransaction = false)
    (hscript : ∀ c, cmd = some c → c.isScriptCall = false) :
    Atomic now s (routeAndDispatch env now cmd (name :: rest) s) ↔
      ¬ PartialArgs now cmd rest s := by
  by_cases hlate : ∃ c, cmd = some c ∧ c.checksLate = true
  · obtain ⟨c, rfl, hc⟩ := hlate
    have hroute : redirect env (some c) (name :: rest) = none :=
      redirect_of_not_routed env _ fun c' hc' =>
        Option.some.inj hc' ▸ Command.not_routed_of_checksLate hc
    simp only [routeAndDispatch, hroute]
    cases c with
    | hset => exact hset_atomic_iff now name rest s
    | watch => exact watch_atomic_iff now name rest s hout
    | subscribe => exact subscribe_atomic_iff now name rest s
    | unsubscribe => exact unsubscribe_atomic_iff now name rest s
    | eval | evalsha => exact absurd (hscript _ rfl) (by simp [Command.isScriptCall])
    | _ => simp [Command.checksLate] at hc
  · have hearly : ∀ c, cmd = some c → c.checksLate = false := fun c hc => by
      by_contra h
      exact hlate ⟨c, hc, by simpa using h⟩
    refine iff_of_true (atomic_of_checksEarly env now _ s hearly) ?_
    cases cmd with
    | none => exact id
    | some c =>
      have hc := hearly c rfl
      cases c with
      | hset | watch | subscribe | unsubscribe => simp [Command.checksLate] at hc
      | _ => exact id

theorem errorAtomic_array (env : Env Λ) (now : ℤ) (name : Bytes) (rest : List RespValue)
    (s : Session S Λ) :
    ErrorAtomic env now (.array (.bulkString name :: rest)) s ↔
      ((∀ c, Command.ofName name = some c → c.isScriptCall = false) →
        Atomic now s (processCommand env now (.array (.bulkString name :: rest)) s)) := by
  constructor
  · intro h hscript
    apply h
    intro name' rest' c heq hc
    simp only [RespValue.array.injEq, List.cons.injEq, RespValue.bulkString.injEq] at heq
    exact hscript c (heq.1 ▸ hc)
  · intro h hscript
    exact h fun c hc => hscript name rest c rfl hc

theorem partialEffect_array (now : ℤ) (name : Bytes) (rest : List RespValue) (s : Session S Λ) :
    PartialEffect now (.array (.bulkString name :: rest)) s ↔
      s.self.inTransaction = false ∧ PartialArgs now (Command.ofName name) rest s := by
  constructor
  · rintro ⟨name', rest', heq, hout, hargs⟩
    simp only [RespValue.array.injEq, List.cons.injEq, RespValue.bulkString.injEq] at heq
    obtain ⟨rfl, rfl⟩ := heq
    exact ⟨hout, hargs⟩
  · rintro ⟨hout, hargs⟩
    exact ⟨name, rest, rfl, hout, hargs⟩

theorem not_partialArgs_of_isScriptCall {now : ℤ} {c : Command} {rest : List RespValue}
    {s : Session S Λ} (hcall : c.isScriptCall = true) : ¬ PartialArgs now (some c) rest s := by
  cases c <;> simp [Command.isScriptCall, PartialArgs] at hcall ⊢

/-- Outside a transaction. -/
theorem error_atomic_idle_iff (env : Env Λ) (now : ℤ) (name : Bytes) (rest : List RespValue)
    {s : Session S Λ} (hout : s.self.inTransaction = false) :
    ErrorAtomic env now (.array (.bulkString name :: rest)) s ↔
      ¬ PartialArgs now (Command.ofName name) rest s := by
  rw [errorAtomic_array]
  by_cases hcall : ∃ c, Command.ofName name = some c ∧ c.isScriptCall = true
  · -- a script call: left out on the left, without a partial effect on the right
    obtain ⟨c, hc, hcall⟩ := hcall
    refine iff_of_true (fun h => absurd (h c hc) (by simp [hcall])) ?_
    rw [hc]
    exact not_partialArgs_of_isScriptCall hcall
  · have hnot : ∀ c, Command.ofName name = some c → c.isScriptCall = false := by
      intro c hc
      by_contra h
      exact hcall ⟨c, hc, by simpa using h⟩
    rw [← direct_atomic_iff env now (Command.ofName name) (.bulkString name) rest s hout hnot]
    simp only [processCommand, hout, Bool.false_eq_true, false_and, if_false]
    exact ⟨fun h => h hnot, fun h _ => h⟩

/-- In a transaction a command is queued, or it is one of the two that end it. -/
theorem atomic_in_transaction (env : Env Λ) (now : ℤ) (name : Bytes) (rest : List RespValue)
    {s : Session S Λ} (hin : s.self.inTransaction = true) :
    Atomic now s (processCommand env now (.array (.bulkString name :: rest)) s) := by
  by_cases hqueue : Command.ofName name ≠ some .exec ∧ Command.ofName name ≠ some .discard
  · simp only [processCommand, hin, true_and, if_pos hqueue]
    exact fun herr => absurd herr not_isError_queuedReply
  · simp only [processCommand, hin, true_and, if_neg hqueue]
    refine atomic_of_checksEarly env now _ s fun c hc => ?_
    rw [hc] at hqueue
    cases c <;> simp [Command.checksLate] at hqueue ⊢

/-- Error replies of `processCommand` are atomic exactly when no bad argument comes after a visible
effect. -/
theorem error_atomic_iff (env : Env Λ) (now : ℤ) (command : RespValue) (s : Session S Λ) :
    ErrorAtomic env now command s ↔ ¬ PartialEffect now command s := by
  have hbad : ∀ msg, (∀ name rest, command ≠ .array (.bulkString name :: rest)) →
      processCommand env now command s = (errReply msg, s) →
      (ErrorAtomic env now command s ↔ ¬ PartialEffect now command s) := by
    intro msg hshape hrun
    refine iff_of_true (fun _ => ?_) ?_
    · rw [hrun]
      exact fun _ _ => SameVisible.refl now s
    · rintro ⟨name, rest, rfl, -⟩
      exact hshape name rest rfl
  match command with
  | .array (.bulkString name :: rest) =>
    rw [partialEffect_array]
    cases hin : s.self.inTransaction with
    | false =>
      rw [error_atomic_idle_iff env now name rest hin]
      simp
    | true =>
      rw [errorAtomic_array]
      exact iff_of_true (fun _ => atomic_in_transaction env now name rest hin) (by simp)
  | .array (.simpleString _ :: _) => exact hbad _ (by simp) rfl
  | .array (.error _ :: _) => exact hbad _ (by simp) rfl
  | .array (.integer _ :: _) => exact hbad _ (by simp) rfl
  | .array (.array _ :: _) => exact hbad _ (by simp) rfl
  | .array [] => exact hbad _ (by simp) rfl
  | .simpleString _ => exact hbad _ (by simp) rfl
  | .error _ => exact hbad _ (by simp) rfl
  | .integer _ => exact hbad _ (by simp) rfl
  | .bulkString _ => exact hbad _ (by simp) rfl

/-- `HSET k f v :1 x` on an empty store: the error comes after `f` has been entered. -/
theorem hset_bad_pair_enters_field :
    ¬ ∀ (env : Env Unit) (now : ℤ) (command : RespValue) (s : Session NatScore Unit),
      ErrorAtomic env now command s := by
  intro h
  have hatomic := h Env.standalone 0
    (.array [.bulkString (str "HSET"), .bulkString [107], .bulkString [102], .bulkString [118],
      .integer 1, .bulkString [120]]) (Session.fresh ∅)
  have hsame := hatomic (by rintro name rest cmd ⟨⟩ hcmd; revert cmd; decide) rfl (by decide)
  exact absurd hsame.data (by decide)

end MinimalRedis
