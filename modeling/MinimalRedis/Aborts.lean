import MinimalRedis.LiveChanges
import MinimalRedis.TransactionRuns

/-!
# Aborted transactions

Why an `EXEC` replies `EXECABORT`.  The `history` of a run lists the commands that are executed in it,
those of a queue when its `EXEC` runs them.

* `Command.rewrites` — the commands that count even where they leave everything as it was, such as a
  `SET` of the same value or a `PERSIST` of a key without expiry;
* `countsNamed_dispatch` — any other command that moves a counter has changed the key it names;
* `watchInvariant_run` — a watched counter stems from a `WATCH` after the last `EXEC` or `UNWATCH`;
* `abort_justified` — without expiry, an abort is due to a command that names a watched key.
-/

namespace MinimalRedis

open Lib Session

variable {S : Type} [Score S] {Λ : Type}

/-! ### Commands that move a counter -/

/-- The commands that count what they do without comparing. -/
def Command.rewrites : Command → Bool
  | .set | .hset | .zadd | .lpop | .rpop => true
  | .expire | .pexpire | .persist => true
  | _ => false

/-- Of the entries that have not expired, a counter moves only at the key that the arguments name, and
only if the entry changes or the command is one that rewrites. -/
def CountsNamed (now : ℤ) (cmd : Option Command) (args : Args) (d d' : Data S) : Prop :=
  ∀ k, ¬ Expired now k d → Database.getModCount k d' ≠ Database.getModCount k d →
    NamesKey k args ∧ (¬ SameLiveAt now k d d' ∨ cmd.any Command.rewrites = true)

section Counts

variable {now : ℤ} {cmd : Option Command} {args : Args} {d d' : Data S} {key : Bytes}

theorem countsNamed_refl (now : ℤ) (cmd : Option Command) (args : Args) (d : Data S) :
    CountsNamed now cmd args d d := fun _ _ hcount => absurd rfl hcount

theorem countsNamed_of_purgesNamed (h : PurgesNamed now args d d') :
    CountsNamed now cmd args d d' := by
  intro k hlive hcount
  refine absurd (getModCount_congr ?_) hcount
  rcases h with rfl | ⟨name, key, rest, -, h⟩
  · rfl
  · rcases h with rfl | ⟨hexp, rfl⟩
    · rfl
    · refine UMap.find?_erase_ne d fun hk => hlive ?_
      rw [hk]
      exact hexp

/-- A change confined to the named key. -/
theorem countsNamed_of_onlyAt {name : RespValue} {rest : List RespValue}
    (hargs : args = name :: .bulkString key :: rest) (honly : OnlyAt key d d')
    (h : ¬ Expired now key d → Database.getModCount key d' ≠ Database.getModCount key d →
      ¬ SameLiveAt now key d d' ∨ cmd.any Command.rewrites = true) :
    CountsNamed now cmd args d d' := by
  intro k hlive hcount
  by_cases hk : k = key
  · subst hk
    exact ⟨⟨name, rest, hargs⟩, h hlive hcount⟩
  · exact absurd (getModCount_congr (honly k hk)) hcount

theorem countsNamed_of_rewrites {name : RespValue} {rest : List RespValue}
    (hcmd : cmd.any Command.rewrites = true) (hargs : args = name :: .bulkString key :: rest)
    (honly : OnlyAt key d d') : CountsNamed now cmd args d d' :=
  countsNamed_of_onlyAt hargs honly fun _ _ => .inr hcmd

theorem incrementModCount_writeThrough (write : RedisValue S → RedisValue S) (key : Bytes)
    (d : Data S) : Database.incrementModCount key (Database.writeThrough write key d) =
      Database.writeThrough (fun v => (write v).bump) key d := by
  unfold Database.incrementModCount Database.writeThrough
  rw [UMap.find?_set_self]
  exact UMap.set_set ..

theorem samePayload_bump {type : RedisType} {v w : RedisValue S} :
    SamePayload type v w.bump ↔ SamePayload type v w := by
  cases type <;> exact Iff.rfl

/-- A counted write that does not leave a payload of its own type as it was. -/
theorem not_sameLiveAt_write (write : RedisValue S → RedisValue S)
    (hwrite : ∀ v, (write v).expiryTime = v.expiryTime) (hlive : ¬ Expired now key d)
    (hdiffers : ∀ v, d.find? key = some v → v.type = (write v).type →
      ¬ SamePayload v.type v (write v)) :
    ¬ SameLiveAt now key d (Database.incrementModCount key (Database.writeThrough write key d)) := by
  rw [incrementModCount_writeThrough,
    sameLiveAt_write_iff now key d (fun v => (write v).bump) hwrite]
  intro hsame
  obtain ⟨v, hv, hexp | ⟨htype, hpayload⟩⟩ := hsame
  · exact hlive ⟨v, hv, hexp⟩
  · exact hdiffers v hv htype (samePayload_bump.mp hpayload)

theorem onlyAt_updateTyped {α : Type} (type : RedisType) (absent : α)
    (update : RedisValue S → α × RedisValue S) (key : Bytes) (d : Data S) :
    OnlyAt key d (Database.updateTyped type absent update key d).2 := by
  rcases updateTyped_cases type absent update key d with h | ⟨v, -, -, h⟩
  · rw [h]
    exact .refl key d
  · rw [h]
    exact .set key _ d

theorem onlyAt_popReply {popped : Bytes × Data S} (h : OnlyAt key d popped.2) :
    OnlyAt key d (popReply now key popped).2 := by
  have hfound : OnlyAt key d (Database.keyExists now key popped.2).2 :=
    h.trans (.of_purged (purged_keyExists now key popped.2))
  unfold popReply
  split
  · dsimp only
    split
    · exact hfound
    · exact hfound.trans (.incrementModCount key _)
  · exact h.trans (.incrementModCount key _)

/-- The expiry commands. -/
theorem onlyAt_ifLive_write {write : RedisValue S → RedisValue S} {x : Bool × Data S}
    (hx : x = Database.ifLive now false (fun v => (true, d.set key (write v))) key d) :
    OnlyAt key d (if x.1 = true then Database.incrementModCount key x.2 else x.2) := by
  have honly : OnlyAt key d x.2 := by
    rcases ifLive_cases now false (fun v => (true, d.set key (write v))) key d with
      ⟨hpurged, -⟩ | ⟨v, -, hlive⟩
    · rw [hx]
      exact .of_purged hpurged
    · rw [hx, hlive]
      exact .set key _ d
  split
  · exact honly.trans (.incrementModCount key _)
  · exact honly

/-- The removals count what they took. -/
theorem countsNamed_remove {α : Type} {type : RedisType} {absent : α}
    {update : RedisValue S → α × RedisValue S} (changed : α → Prop) [DecidablePred changed]
    {name : RespValue} {rest : List RespValue} (hargs : args = name :: .bulkString key :: rest)
    (habsent : ¬ changed absent) (hcount : ∀ v, (update v).2.modCount = v.modCount)
    (hexpiry : ∀ v, (update v).2.expiryTime = v.expiryTime)
    (hdiffers : ∀ v, changed (update v).1 → ¬ SamePayload type v (update v).2) {x : α × Data S}
    (hx : x = Database.updateTyped type absent update key d) :
    CountsNamed now cmd args d (if changed x.1 then Database.incrementModCount key x.2 else x.2) := by
  have honly : OnlyAt key d x.2 := by
    rw [hx]
    exact onlyAt_updateTyped type absent update key d
  apply countsNamed_of_onlyAt hargs
  · split
    · exact honly.trans (.incrementModCount key _)
    · exact honly
  · intro hlive hmoved
    rcases updateTyped_cases type absent update key d with h | ⟨v, hv, hkind, h⟩
    · rw [hx, h, if_neg habsent] at hmoved
      exact absurd rfl hmoved
    · rw [hx, h] at hmoved ⊢
      split at hmoved
      · rename_i hchanged
        have hlive' : v.isExpired now = false := by
          by_contra hexp
          exact hlive ⟨v, hv, by simpa using hexp⟩
        have hw : (Database.incrementModCount key (d.set key (update v).2)).find? key =
            some (update v).2.bump := by
          simp [Database.incrementModCount]
        rw [if_pos hchanged, sameLiveAt_iff_of_live hv hlive' hw (hexpiry v)]
        refine .inl fun hsame => hdiffers v hchanged ?_
        rw [← hkind]
        exact samePayload_bump.mp hsame.2
      · rw [getModCount_of_find? (UMap.find?_set_self d key _), hcount, getModCount_of_find? hv]
          at hmoved
        exact absurd rfl hmoved

theorem countsNamed_push {arity notBulkKey notBulkRest : String}
    {run : Bytes → List Bytes → Data S → Bytes × Data S}
    (write : List Bytes → RedisValue S → RedisValue S)
    (hexpiry : ∀ values v, (write values v).expiryTime = v.expiryTime)
    (htype : ∀ values v, (write values v).type = .list)
    (hlength : ∀ values v, (write values v).listVal.length = v.listVal.length + values.length)
    (hrun : ∀ key values, (run key values d).2 =
      Database.incrementModCount key (Database.writeThrough (write values) key d)) :
    CountsNamed now cmd args d (withKeyAndRest arity notBulkKey notBulkRest run args d).2 := by
  apply rel_withKeyAndRest (countsNamed_refl now cmd args d)
  intro name key rest values hargs hvalues
  rw [hrun]
  apply countsNamed_of_onlyAt hargs (.trans (.set key _ d) (.incrementModCount key _))
  intro hlive _
  refine .inl (not_sameLiveAt_write (write values) (hexpiry values) hlive ?_)
  intro v _ hlist hpayload
  rw [htype] at hlist
  rw [hlist] at hpayload
  have hsame : v.listVal.length = (write values v).listVal.length := congrArg List.length hpayload
  have hpos := List.length_pos_iff.mpr (values?_ne_nil hvalues)
  rw [hlength] at hsame
  omega

theorem countsNamed_sadd : CountsNamed now cmd args d (handleSadd args d).2 := by
  apply rel_withKeyAndRest (countsNamed_refl now cmd args d)
  intro name key rest members hargs hvalues
  show CountsNamed now cmd args d
    (if (Database.sadd key members d).1 > 0
      then Database.incrementModCount key (Database.sadd key members d).2
      else (Database.sadd key members d).2)
  split
  · rename_i hadded
    apply countsNamed_of_onlyAt hargs (.trans (.set key _ d) (.incrementModCount key _))
    intro hlive _
    refine .inl (not_sameLiveAt_write
      (fun val => { val with type := .set, setVal := USet.insertMany val.setVal members })
      (fun _ => rfl) hlive ?_)
    intro v hv hset hpayload
    replace hset : v.type = .set := hset
    rw [hset] at hpayload
    have hsame : v.setVal.size = UMap.size (USet.insertMany v.setVal members) :=
      UMap.size_of_find? hpayload
    simp only [Database.sadd, Database.writeThrough, UMap.find?_set_self, hv, Option.getD_some]
      at hadded
    rw [← hsame, Nat.sub_self] at hadded
    exact absurd hadded (Nat.lt_irrefl 0)
  · apply countsNamed_of_onlyAt hargs (.set key _ d)
    intro _ hmoved
    refine absurd ?_ hmoved
    exact getModCount_write key d
      (fun val => { val with type := .set, setVal := USet.insertMany val.setVal members }) fun _ => rfl

theorem countsNamed_srem : CountsNamed now cmd args d (handleSrem args d).2 := by
  apply rel_withKeyAndRest (countsNamed_refl now cmd args d)
  intro name key rest members hargs _
  refine countsNamed_remove (· > 0) hargs (by simp) ?_ ?_ ?_ rfl
  · exact fun _ => rfl
  · exact fun _ => rfl
  · intro v hremoved hpayload
    have hsame := UMap.size_of_find? hpayload
    replace hremoved : v.setVal.size - (v.setVal.eraseMany members).size > 0 := hremoved
    replace hsame : v.setVal.size = (v.setVal.eraseMany members).size := hsame
    omega

theorem countsNamed_hdel : CountsNamed now cmd args d (handleHdel args d).2 := by
  apply rel_withKeyAndRest (countsNamed_refl now cmd args d)
  intro name key rest fields hargs _
  refine countsNamed_remove (· = true) hargs (by simp) ?_ ?_ ?_ rfl
  · exact fun _ => rfl
  · exact fun _ => rfl
  · intro v hdeleted hpayload
    have hsame := UMap.size_of_find? hpayload
    have hless : (v.hashVal.eraseMany fields).size < v.hashVal.size := of_decide_eq_true hdeleted
    replace hsame : v.hashVal.size = (v.hashVal.eraseMany fields).size := hsame
    omega

theorem countsNamed_zrem : CountsNamed now cmd args d (handleZrem args d).2 := by
  apply rel_withKeyAndRest (countsNamed_refl now cmd args d)
  intro name key rest members hargs _
  refine countsNamed_remove (· = true) hargs (by simp) ?_ ?_ ?_ rfl
  · exact fun v => modCount_foldl_zremOne members (false, v)
  · exact fun v => (foldl_zremOne_spec members (false, v)).2
  · intro v hremoved hpayload
    rcases (foldl_zremOne_spec members (false, v)).1.mp hremoved with hflag | hmember
    · cases hflag
    · have hless : (v.zsetMemberToScore.eraseMany members).size < v.zsetMemberToScore.size :=
        UMap.size_eraseMany_lt_iff.mpr hmember
      have hsame := UMap.size_of_find? hpayload.2
      rw [Database.zsetMemberToScore_foldl_zremOne] at hsame
      exact absurd hsame (Nat.ne_of_gt hless)

theorem countsNamed_del : CountsNamed now cmd args d (handleDel now args d).2 := by
  apply rel_withKey (countsNamed_refl now cmd args d)
  intro name key hargs
  have hfound : OnlyAt key d (Database.keyExists now key d).2 := .of_purged (purged_keyExists now key d)
  apply countsNamed_of_onlyAt hargs
  · refine OnlyAt.trans ?_ (.erase key _)
    split
    · exact hfound.trans (.incrementModCount key _)
    · exact hfound
  · intro hlive hmoved
    cases hv : d.find? key with
    | none =>
      refine absurd (getModCount_congr ?_) hmoved
      rw [hv]
      exact UMap.find?_erase_self _ _
    | some v =>
      have hlive' : v.isExpired now = false := by
        by_contra hexp
        exact hlive ⟨v, hv, by simpa using hexp⟩
      exact .inl (not_sameLiveAt_of_lost hv hlive' (UMap.find?_erase_self _ _))

theorem countsNamed_hset : CountsNamed now (some .hset) args d (handleHset args d).2 := by
  by_cases hkey : ∃ key, NamesKey key args
  · obtain ⟨key, name, rest, rfl⟩ := hkey
    rcases handleHset_key (S := S) name key rest with ⟨⟨-, hpairs⟩, hrun⟩ | ⟨-, r, hrun⟩
    · rw [hrun, foldl_hset key hpairs]
      refine countsNamed_of_rewrites rfl rfl ?_
      split
      · exact .set key _ d
      · exact .trans (.set key _ d) (.incrementModCount key _)
    · rw [hrun]
      exact countsNamed_refl _ _ _ _
  · exact rel_of_refuses (countsNamed_refl _ _ _ _) (handleHset_refuses (mt namesKey_of_pairArgs hkey))

theorem countsNamed_zadd : CountsNamed now (some .zadd) args d (handleZadd args d).2 := by
  by_cases hkey : ∃ key, NamesKey key args
  · obtain ⟨key, name, rest, rfl⟩ := hkey
    rcases handleZadd_key (S := S) name key rest with ⟨ps, -, hrun⟩ | ⟨-, r, hrun⟩
    · rw [hrun]
      exact countsNamed_of_rewrites rfl rfl (.trans (.set key _ d) (.incrementModCount key _))
    · rw [hrun]
      exact countsNamed_refl _ _ _ _
  · exact rel_of_refuses (countsNamed_refl _ _ _ _) (handleZadd_refuses (mt namesKey_of_pairArgs hkey))

theorem expired_of_writeThrough (write : RedisValue S → RedisValue S)
    (hwrite : ∀ v, (write v).expiryTime = v.expiryTime)
    (h : Expired now key (Database.writeThrough write key d)) : Expired now key d := by
  obtain ⟨w, hw, hexp⟩ := h
  have hfind : (Database.writeThrough write key d).find? key =
      some (write ((d.find? key).getD default)) := UMap.find?_set_self ..
  rw [hfind, Option.some.injEq] at hw
  rw [← hw, RedisValue.isExpired_congr (hwrite _)] at hexp
  cases hv : d.find? key with
  | none =>
    rw [hv] at hexp
    cases hexp
  | some v =>
    rw [hv] at hexp
    exact ⟨v, hv, hexp⟩

/-- A call of a script moves no counter of an entry that has not expired: its `SET` does not count. -/
theorem getModCount_redisPcall {k : Bytes} {args : List LuaValue}
    {x : Except LuaValue LuaValue × Data S} (hx : LuaScriptingEngine.redisPcall now args d = some x)
    (hlive : ¬ Expired now k d) :
    Database.getModCount k x.2 = Database.getModCount k d ∧ ¬ Expired now k x.2 := by
  have hkept : x.2.find? k = d.find? k →
      Database.getModCount k x.2 = Database.getModCount k d ∧ ¬ Expired now k x.2 := by
    intro hfind
    refine ⟨getModCount_congr hfind, ?_⟩
    unfold Expired
    rw [hfind]
    exact hlive
  rcases redisPcall_cases hx with
    hdata | ⟨cmd, key, rest, name, -, -, hdata⟩ | ⟨cmd, key, value, rest, name, text, -, -, -, -, hdata⟩
  · exact hkept (by rw [hdata])
  · -- a `GET` loses expired entries only
    apply hkept
    have hpurged : Purged now name d (Database.get now name d).2 :=
      purged_ifTypedLive now .string [] _ name d
    rw [hdata]
    rcases hpurged with heq | ⟨hexp, heq⟩
    · rw [heq]
    · rw [heq]
      refine UMap.find?_erase_ne _ fun hk => hlive ?_
      rw [hk]
      exact hexp
  · by_cases hk : k = name
    · subst hk
      rw [hdata]
      let write : RedisValue S → RedisValue S := fun v => { v with type := .string, strVal := text }
      exact ⟨getModCount_write k d write fun _ => rfl,
        fun hexp => hlive (expired_of_writeThrough write (fun _ => rfl) hexp)⟩
    · apply hkept
      rw [hdata]
      exact UMap.find?_set_ne d _ hk

theorem getModCount_callsMany {k : Bytes} (h : CallsMany now d d') (hlive : ¬ Expired now k d) :
    Database.getModCount k d' = Database.getModCount k d ∧ ¬ Expired now k d' := by
  induction h with
  | refl => exact ⟨rfl, hlive⟩
  | tail _ hcall ih =>
    obtain ⟨hcount, hlive⟩ := ih
    obtain ⟨args, x, hx, rfl⟩ := hcall
    rw [← hcount]
    exact getModCount_redisPcall hx hlive

/-- Every command but `EXEC`. -/
theorem countsNamed_dispatch (env : Env Λ) (now : ℤ) {cmd : Option Command} (hexec : cmd ≠ some .exec)
    (args : Args) (s : Session S Λ) :
    CountsNamed now cmd args s.world.data (dispatch env now cmd args s).2.world.data := by
  have hsame : ∀ {cmd : Option Command} {d : Data S}, d = s.world.data →
      CountsNamed now cmd args s.world.data d := by
    intro cmd d h
    rw [h]
    exact countsNamed_refl now cmd args _
  have hcalls : ∀ {cmd : Option Command} {d : Data S}, CallsMany now s.world.data d →
      CountsNamed now cmd args s.world.data d :=
    fun h k hlive hmoved => absurd (getModCount_callsMany h hlive).1 hmoved
  cases cmd with
  | none => exact hsame rfl
  | some cmd =>
    cases cmd with
    | set =>
      apply rel_withTwo (countsNamed_refl now _ args _)
      intro name key value hargs
      exact countsNamed_of_rewrites rfl hargs (.trans (.set key _ _) (.incrementModCount key _))
    | get => exact countsNamed_of_purgesNamed purgesNamed_get
    | del => exact countsNamed_del
    | existsKey =>
      exact countsNamed_of_purgesNamed (purgesNamed_withKey fun key => purged_keyExists now key _)
    | type => exact countsNamed_of_purgesNamed purgesNamed_type
    | lpush =>
      refine countsNamed_push (fun values val =>
        { val with type := .list, listVal := values.reverse ++ val.listVal }) ?_ ?_ ?_ ?_
      · exact fun _ _ => rfl
      · exact fun _ _ => rfl
      · intro values v
        simp [Nat.add_comm]
      · exact fun _ _ => rfl
    | rpush =>
      refine countsNamed_push (fun values val =>
        { val with type := .list, listVal := val.listVal ++ values }) ?_ ?_ ?_ ?_
      · exact fun _ _ => rfl
      · exact fun _ _ => rfl
      · intro values v
        simp
      · exact fun _ _ => rfl
    | lpop | rpop =>
      apply rel_withKey (countsNamed_refl now _ args _)
      intro name key hargs
      exact countsNamed_of_rewrites rfl hargs (onlyAt_popReply (onlyAt_updateTyped .list [] _ key _))
    | llen =>
      exact countsNamed_of_purgesNamed
        (purgesNamed_withKey fun key => purged_ifTypedLive now .list 0 _ key _)
    | lindex => exact countsNamed_of_purgesNamed purgesNamed_lindex
    | sadd => exact countsNamed_sadd
    | srem => exact countsNamed_srem
    | hset => exact countsNamed_hset
    | hget => exact countsNamed_of_purgesNamed purgesNamed_hget
    | hdel => exact countsNamed_hdel
    | zadd => exact countsNamed_zadd
    | zrem => exact countsNamed_zrem
    | zscore => exact countsNamed_of_purgesNamed purgesNamed_zscore
    | expire | pexpire =>
      apply rel_withDuration (countsNamed_refl now _ args _)
      intro name key arg n hargs
      exact countsNamed_of_rewrites rfl hargs (onlyAt_ifLive_write rfl)
    | persist =>
      apply rel_withKey (countsNamed_refl now _ args _)
      intro name key hargs
      exact countsNamed_of_rewrites rfl hargs (onlyAt_ifLive_write rfl)
    | ttl | pttl =>
      exact countsNamed_of_purgesNamed (purgesNamed_withKey fun key => purged_ifLive now (-2) _ key _)
    | eval => exact hcalls (callsMany_handleEval env.vm args s)
    | evalsha => exact hcalls (callsMany_handleEvalsha env.vm args s)
    | exec => exact absurd rfl hexec
    | multi | discard | watch | unwatch | subscribe | unsubscribe | publish | script | cluster | info =>
      apply hsame
      refine data_dispatch env now ?_ ?_ ?_ ?_ args s
      · rfl
      · nofun
      · nofun
      · nofun
    | lrange | zrange | zrevrange | sinter | sunion | sdiff | scard | smembers | hlen | hkeys | hvals
    | hgetall | zcard | sismember | zrank | keys | save =>
      apply hsame
      refine data_dispatch_of_inspects env now ?_ args s
      rfl

end Counts

/-! ### Histories -/

/-- A command that is executed, with its time and the data before and after it. -/
structure Execution (S : Type) [Score S] where
  now : ℤ
  cmd : Option Command
  args : Args
  before : Data S
  after : Data S

/-- The commands of a queue, in the order in which `EXEC` runs them. -/
def queueExecutions (now : ℤ) : List TransactionCommand → Session S Λ → List (Execution S)
  | [], _ => []
  | tx :: queue, s =>
      let s' := (executeFunc now tx s).2
      ⟨now, queuedCommand tx, tx.args, s.world.data, s'.world.data⟩ :: queueExecutions now queue s'

/-- What a request executes: nothing when it is malformed, queued or redirected, the queue for an
`EXEC` that goes through, else the command itself. -/
def System.executions (env : Env Λ) (r : Request) (sys : System S Λ) : List (Execution S) :=
  let s := sys.session r.client
  match r.command with
  | .array (.bulkString name :: rest) =>
      let args := .bulkString name :: rest
      let cmd := Command.ofName name
      if s.self.inTransaction ∧ cmd ≠ some .exec ∧ cmd ≠ some .discard then []
      else
        match redirect env cmd args with
        | some _ => []
        | none =>
            if cmd = some .exec then
              if args.length = 1 ∧ s.self.inTransaction ∧ watchesHold s.self.watchedKeys s.world.data
              then queueExecutions r.now s.self.transactionQueue s
              else []
            else [⟨r.now, cmd, args, s.world.data, (dispatch env r.now cmd args s).2.world.data⟩]
  | _ => []

/-- The executions of a run. -/
def System.history (env : Env Λ) : List Request → System S Λ → List (Execution S)
  | [], _ => []
  | r :: rs, sys => sys.executions env r ++ System.history env rs (sys.step env r).2

section Histories

variable {env : Env Λ}

/-- A counter moves in the run of a queue only if one of its commands moves it. -/
theorem getModCount_queueExecutions (now : ℤ) (k : Bytes) (queue : List TransactionCommand)
    (s : Session S Λ)
    (h : ∀ e ∈ queueExecutions now queue s,
      Database.getModCount k e.after = Database.getModCount k e.before) :
    Database.getModCount k (execLoop now queue s).2.world.data =
      Database.getModCount k s.world.data := by
  induction queue generalizing s with
  | nil => rfl
  | cons tx queue ih =>
    have hfirst := h _ List.mem_cons_self
    exact (ih _ fun e he => h e (List.mem_cons_of_mem _ he)).trans hfirst

theorem countsNamed_queueExecutions (env : Env Λ) (now : ℤ) (queue : List TransactionCommand)
    (s : Session S Λ) :
    ∀ e ∈ queueExecutions now queue s, CountsNamed e.now e.cmd e.args e.before e.after := by
  induction queue generalizing s with
  | nil => exact fun _ he => absurd he List.not_mem_nil
  | cons tx queue ih =>
    intro e he
    rcases List.mem_cons.mp he with rfl | he
    · show CountsNamed now (queuedCommand tx) tx.args s.world.data (executeFunc now tx s).2.world.data
      rw [executeFunc_eq_dispatch env]
      exact countsNamed_dispatch env now (queuedCommand_ne rfl) tx.args s
    · exact ih _ e he

theorem countsNamed_executions (sys : System S Λ) (r : Request) :
    ∀ e ∈ sys.executions env r, CountsNamed e.now e.cmd e.args e.before e.after := by
  intro e he
  unfold System.executions at he
  dsimp only at he
  split at he
  · split at he
    · cases he
    · split at he
      · cases he
      · split at he
        · split at he
          · exact countsNamed_queueExecutions env _ _ _ e he
          · cases he
        · rename_i hexec
          rw [List.mem_singleton.mp he]
          exact countsNamed_dispatch env _ hexec _ _
  · cases he

theorem getModCount_handleExec {now : ℤ} {k : Bytes} {args : Args} {s : Session S Λ}
    (h : ∀ e ∈ (if args.length = 1 ∧ s.self.inTransaction = true ∧
        watchesHold s.self.watchedKeys s.world.data = true
      then queueExecutions now s.self.transactionQueue s else []),
      Database.getModCount k e.after = Database.getModCount k e.before) :
    Database.getModCount k (handleExec now args s).2.world.data =
      Database.getModCount k s.world.data := by
  unfold handleExec
  split
  · rfl
  · rename_i hargs
    split
    · rfl
    · rename_i hin
      split
      · rfl
      · rename_i hwatch
        rw [if_pos ⟨not_not.mp hargs, by simpa using hin, by simpa using hwatch⟩] at h
        exact getModCount_queueExecutions now k _ s h

/-- A counter moves in a step only if it moves in an execution of it. -/
theorem getModCount_step {k : Bytes} {sys : System S Λ} {r : Request}
    (h : ∀ e ∈ sys.executions env r,
      Database.getModCount k e.after = Database.getModCount k e.before) :
    Database.getModCount k (sys.step env r).2.world.data = Database.getModCount k sys.world.data := by
  show Database.getModCount k
    (processCommand env r.now r.command (sys.session r.client)).2.world.data = _
  cases hcommand : r.command with
  | array elems =>
    cases elems with
    | nil => rfl
    | cons v rest =>
      cases v with
      | bulkString name =>
        simp only [System.executions, hcommand] at h
        simp only [processCommand]
        split
        · rfl
        · rename_i hdirect
          rw [if_neg hdirect] at h
          unfold routeAndDispatch
          cases hroute : redirect env (Command.ofName name) (.bulkString name :: rest) with
          | some x => rfl
          | none =>
            rw [hroute] at h
            dsimp only at h ⊢
            by_cases hexec : Command.ofName name = some .exec
            · rw [if_pos hexec] at h
              rw [hexec]
              exact getModCount_handleExec h
            · rw [if_neg hexec] at h
              exact h _ List.mem_cons_self
      | _ => rfl
  | _ => rfl

/-- Over a run, a counter moves only if an execution moves it. -/
theorem getModCount_run {k : Bytes} {rs : List Request} {sys : System S Λ}
    (h : ∀ e ∈ sys.history env rs,
      Database.getModCount k e.after = Database.getModCount k e.before) :
    Database.getModCount k (sys.run env rs).world.data = Database.getModCount k sys.world.data := by
  induction rs generalizing sys with
  | nil => rfl
  | cons r rs ih =>
    have hstep : Database.getModCount k (sys.step env r).2.world.data =
        Database.getModCount k sys.world.data :=
      getModCount_step fun e he => h e (List.mem_append_left _ he)
    exact (ih fun e he => h e (List.mem_append_right _ he)).trans hstep

theorem countsNamed_history (rs : List Request) (sys : System S Λ) :
    ∀ e ∈ sys.history env rs, CountsNamed e.now e.cmd e.args e.before e.after := by
  induction rs generalizing sys with
  | nil => exact fun _ he => absurd he List.not_mem_nil
  | cons r rs ih =>
    intro e he
    rcases List.mem_append.mp he with he | he
    · exact countsNamed_executions sys r e he
    · exact ih _ e he

end Histories

/-! ### Watched counters -/

/-- The command is executed as `cmd`, which takes no arguments: an `UNWATCH` outside a transaction, an
`EXEC` or a `DISCARD` inside one. -/
def Ends (cmd : Command) (command : RespValue) (p : Processor Λ) : Prop :=
  command.command? = some cmd ∧ command.args.length = 1 ∧ (p.inTransaction = true ↔ cmd ≠ .unwatch)

/-- After the requests `before`, client `A` executes a `WATCH` that names `k`, and none of `ends`
since. -/
structure WatchedSince (env : Env Λ) (A : ℕ) (k : Bytes) (ends : List Command) (sys : System S Λ)
    (before : List Request) (watch : Request) (since : List Request) : Prop where
  client : watch.client = A
  command : watch.command.command? = some .watch
  names : k ∈ leadingBulk watch.command.args.tail
  idle : ((sys.run env before).clients A).inTransaction = false
  kept : ∀ part r more, since = part ++ r :: more → r.client = A →
    ∀ cmd ∈ ends, ¬ Ends cmd r.command ((sys.run env (before ++ watch :: part)).clients A)

/-- A key that `A` watches was named by a command that `moves` it, after the `WATCH`. -/
def AbortJustified (env : Env Λ) (A : ℕ) (ends : List Command) (moves : Bytes → Execution S → Prop)
    (sys : System S Λ) (rs : List Request) : Prop :=
  ∃ k before watch since, rs = before ++ watch :: since ∧
    WatchedSince env A k ends sys before watch since ∧
    ∃ e ∈ (sys.run env (before ++ [watch])).history env since, NamesKey k e.args ∧ moves k e

section Watches

variable {env : Env Λ} {now : ℤ} {command : RespValue} {s : Session S Λ} {k : Bytes} {n : UInt64}

/-- Where a watched counter comes from: this `WATCH`, or it was there and has not been cleared. -/
theorem find?_watchedKeys_dispatch {cmd : Option Command} {name : RespValue} {rest : List RespValue}
    (hdirect : ¬ (s.self.inTransaction = true ∧ cmd ≠ some .exec ∧ cmd ≠ some .discard))
    (h : (dispatch env now cmd (name :: rest) s).2.self.watchedKeys.find? k = some n) :
    (cmd = some .watch ∧ k ∈ leadingBulk rest ∧ s.self.inTransaction = false ∧
        n = Database.getModCount k s.world.data) ∨
      (s.self.watchedKeys.find? k = some n ∧
        ∀ c, c = .exec ∨ c = .unwatch → cmd = some c → rest = [] →
          ¬ (s.self.inTransaction = true ↔ c ≠ .unwatch)) := by
  by_cases hwatch : cmd = some .watch
  · subst hwatch
    have hout : s.self.inTransaction = false := by
      by_contra hin
      exact hdirect ⟨by simpa using hin, by decide, by decide⟩
    replace h : (handleWatch (name :: rest) s).2.self.watchedKeys.find? k = some n := h
    rw [find?_handleWatch hout] at h
    split at h
    · rename_i hmem
      exact .inl ⟨rfl, hmem, hout, (Option.some.inj h).symm⟩
    · refine .inr ⟨h, ?_⟩
      intro c hc heq
      rw [← Option.some.inj heq] at hc
      exact absurd hc (by decide)
  · by_cases hexec : cmd = some .exec
    · subst hexec
      replace h : (handleExec now (name :: rest) s).2.self.watchedKeys.find? k = some n := h
      unfold handleExec at h
      split at h
      · rename_i hargs
        refine .inr ⟨h, ?_⟩
        intro c _ _ hrest
        rw [hrest] at hargs
        exact absurd rfl hargs
      · split at h
        · rename_i hout
          refine .inr ⟨h, ?_⟩
          intro c _ heq _ hiff
          obtain rfl := Option.some.inj heq
          rw [hiff.mpr (by decide)] at hout
          cases hout
        · split at h
          · cases h
          · cases h
    · by_cases hunwatch : cmd = some .unwatch
      · subst hunwatch
        replace h : (handleUnwatch (name :: rest) s).2.self.watchedKeys.find? k = some n := h
        unfold handleUnwatch at h
        split at h
        · rename_i hargs
          refine .inr ⟨h, ?_⟩
          intro c _ _ hrest
          rw [hrest] at hargs
          exact absurd rfl hargs
        · cases h
      · rw [watchedKeys_dispatch hexec hwatch hunwatch] at h
        refine .inr ⟨h, ?_⟩
        intro c hc heq
        rcases hc with rfl | rfl
        · exact absurd heq hexec
        · exact absurd heq hunwatch

theorem find?_watchedKeys_cases
    (h : (processCommand env now command s).2.self.watchedKeys.find? k = some n) :
    (command.command? = some .watch ∧ k ∈ leadingBulk command.args.tail ∧
        s.self.inTransaction = false ∧ n = Database.getModCount k s.world.data) ∨
      (s.self.watchedKeys.find? k = some n ∧
        ∀ cmd ∈ [Command.exec, .unwatch], ¬ Ends cmd command s.self) := by
  have hnone : command.command? = none → s.self.watchedKeys.find? k = some n →
      s.self.watchedKeys.find? k = some n ∧
        ∀ cmd ∈ [Command.exec, .unwatch], ¬ Ends cmd command s.self := by
    intro hcommand h
    refine ⟨h, fun cmd _ hends => ?_⟩
    rw [hends.1] at hcommand
    cases hcommand
  cases command with
  | array elems =>
    cases elems with
    | nil => exact .inr (hnone rfl h)
    | cons v rest =>
      cases v with
      | bulkString name =>
        simp only [processCommand] at h
        split at h
        · rename_i hqueued
          refine .inr ⟨h, ?_⟩
          intro cmd hcmd hends
          obtain ⟨hname, -, hmode⟩ := hends
          rcases List.mem_cons.mp hcmd with rfl | hcmd
          · exact hqueued.2.1 hname
          · rw [List.mem_singleton.mp hcmd] at hmode
            exact hmode.mp hqueued.1 rfl
        · rename_i hdirect
          unfold routeAndDispatch at h
          cases hroute : redirect env (Command.ofName name) (.bulkString name :: rest) with
          | some x =>
            rw [hroute] at h
            obtain ⟨c, hc, hrouted⟩ := routed_of_redirect hroute
            refine .inr ⟨h, ?_⟩
            intro cmd hcmd hends
            obtain rfl : c = cmd := Option.some.inj (hc.symm.trans hends.1)
            rcases List.mem_cons.mp hcmd with rfl | hcmd
            · cases hrouted
            · rw [List.mem_singleton.mp hcmd] at hrouted
              cases hrouted
          | none =>
            rw [hroute] at h
            rcases find?_watchedKeys_dispatch hdirect h with hwatch | ⟨hkept, hends⟩
            · exact .inl hwatch
            · refine .inr ⟨hkept, ?_⟩
              intro cmd hcmd hend
              obtain ⟨hname, hargs, hmode⟩ := hend
              have hrest : rest = [] := by
                replace hargs : (RespValue.bulkString name :: rest).length = 1 := hargs
                rw [List.length_cons] at hargs
                exact List.length_eq_zero_iff.mp (by omega)
              refine hends cmd ?_ hname hrest hmode
              simpa using hcmd
      | _ => exact .inr (hnone rfl h)
  | _ => exact .inr (hnone rfl h)

end Watches

section WatchRuns

variable {env : Env Λ} {A : ℕ} {sys : System S Λ} {k : Bytes} {ends : List Command}

theorem WatchedSince.snoc {before since : List Request} {watch r : Request}
    (h : WatchedSince env A k ends sys before watch since)
    (hr : r.client = A → ∀ cmd ∈ ends,
      ¬ Ends cmd r.command ((sys.run env (before ++ watch :: since)).clients A)) :
    WatchedSince env A k ends sys before watch (since ++ [r]) where
  client := h.client
  command := h.command
  names := h.names
  idle := h.idle
  kept part r' more hsplit hclient := by
    rcases List.eq_nil_or_concat more with rfl | ⟨more', last, rfl⟩
    · obtain ⟨rfl, hlast⟩ := List.append_inj' hsplit rfl
      obtain rfl : r = r' := by simpa using hlast
      exact hr hclient
    · have hsplit' : since ++ [r] = (part ++ r' :: more') ++ [last] := by simpa using hsplit
      obtain ⟨rfl, -⟩ := List.append_inj' hsplit' rfl
      exact h.kept part r' more' rfl hclient

/-- Every watched counter of `A` is the one its `WATCH` found. -/
def WatchInvariant (env : Env Λ) (A : ℕ) (sys : System S Λ) (rs : List Request) : Prop :=
  ∀ k n, ((sys.run env rs).clients A).watchedKeys.find? k = some n →
    ∃ before watch since, rs = before ++ watch :: since ∧
      WatchedSince env A k [.exec, .unwatch] sys before watch since ∧
      n = Database.getModCount k (sys.run env before).world.data

theorem watchInvariant_run (hnew : (sys.clients A).watchedKeys = ∅) (rs : List Request) :
    WatchInvariant env A sys rs := by
  induction rs using List.reverseRecOn with
  | nil =>
    intro k n h
    replace h : (sys.clients A).watchedKeys.find? k = some n := h
    rw [hnew] at h
    cases h
  | append_singleton rs r ih =>
    intro k n h
    rw [run_append_singleton] at h
    -- a counter that was there before stems from the same `WATCH`
    have hold : ((sys.run env rs).clients A).watchedKeys.find? k = some n →
        (r.client = A → ∀ cmd ∈ [Command.exec, .unwatch],
          ¬ Ends cmd r.command ((sys.run env rs).clients A)) →
        ∃ before watch since, rs ++ [r] = before ++ watch :: since ∧
          WatchedSince env A k [.exec, .unwatch] sys before watch since ∧
          n = Database.getModCount k (sys.run env before).world.data := by
      intro hfind hr
      obtain ⟨before, watch, since, rfl, hsince, hn⟩ := ih k n hfind
      exact ⟨before, watch, since ++ [r], by simp, hsince.snoc hr, hn⟩
    by_cases hA : r.client = A
    · subst hA
      rw [clients_step_self] at h
      rcases find?_watchedKeys_cases h with ⟨hcommand, hnames, hidle, hn⟩ | ⟨hfind, hends⟩
      · exact ⟨rs, r, [], rfl, ⟨rfl, hcommand, hnames, hidle, by simp⟩, hn⟩
      · exact hold hfind fun _ => hends
    · rw [clients_step_of_ne hA] at h
      exact hold h fun hclient => absurd hclient hA

theorem history_append (rs rs' : List Request) (sys : System S Λ) :
    sys.history env (rs ++ rs') = sys.history env rs ++ (sys.run env rs).history env rs' := by
  induction rs generalizing sys with
  | nil => rfl
  | cons r rs ih =>
    show sys.executions env r ++ System.history env (rs ++ rs') (sys.step env r).2 = _
    rw [ih, ← List.append_assoc]
    rfl

/-- The reply of an abort says that a watched counter differs. -/
theorem exists_of_abort {r : Request} (hcommand : r.command.command? = some .exec)
    (habort : (sys.step env r).1 = execAbortReply) :
    ∃ k n, (sys.clients r.client).watchedKeys.find? k = some n ∧
      Database.getModCount k sys.world.data ≠ n := by
  replace habort : (processCommand env r.now r.command (sys.session r.client)).1 = _ := habort
  rw [processCommand_exec_eq env hcommand] at habort
  have hwatch : watchesHold (sys.clients r.client).watchedKeys sys.world.data = false := by
    rcases handleExec_cases r.now r.command.args (sys.session r.client) with
      ⟨-, hne, -⟩ | ⟨hwatch, -⟩ | hdone
    · exact absurd habort hne
    · exact hwatch
    · rw [hdone] at habort
      cases habort
  obtain ⟨e, he, hne⟩ := List.all_eq_false.mp hwatch
  exact ⟨e.1, e.2, UMap.mem_entries_iff.mp he, fun hcount => hne (beq_iff_eq.mpr hcount)⟩

end WatchRuns

/-! ### Aborts -/

/-- In a run without expired entries, an `EXEC` of `A` aborts only if a key was named in a `WATCH` that
`A` has executed since its last `EXEC` or `UNWATCH`, and since then a command that names the key has
changed it or is one that counts without comparing. -/
theorem abort_justified (env : Env Λ) (sys : System S Λ) (A : ℕ) (rs : List Request) (exec : Request)
    (hnew : (sys.clients A).watchedKeys = ∅)
    (hlive : ∀ e ∈ sys.history env rs, ∀ k, ¬ Expired e.now k e.before)
    (hexec : exec.client = A ∧ exec.command.command? = some .exec)
    (habort : ((sys.run env rs).step env exec).1 = execAbortReply) :
    AbortJustified env A [.exec, .unwatch]
      (fun k e => ¬ SameLiveAt e.now k e.before e.after ∨ e.cmd.any Command.rewrites = true) sys rs := by
  obtain ⟨rfl, hcommand⟩ := hexec
  obtain ⟨k, n, hfind, hcount⟩ := exists_of_abort hcommand habort
  obtain ⟨before, watch, since, rfl, hsince, hn⟩ := watchInvariant_run hnew rs k n hfind
  refine ⟨k, before, watch, since, rfl, hsince, ?_⟩
  have hdata : (sys.run env (before ++ [watch])).world.data = (sys.run env before).world.data := by
    rw [run_append_singleton]
    apply data_step_watch hsince.command
    rw [hsince.client]
    exact hsince.idle
  have hsplit : before ++ watch :: since = (before ++ [watch]) ++ since := by simp
  have hrun : sys.run env (before ++ watch :: since) =
      (sys.run env (before ++ [watch])).run env since := by
    rw [hsplit]
    exact List.foldl_append ..
  -- the counter has moved since the `WATCH`, so an execution has moved it
  by_contra hnone
  apply hcount
  rw [hrun, hn, ← hdata]
  apply getModCount_run
  intro e he
  by_contra hmoved
  have hmem : e ∈ sys.history env (before ++ watch :: since) := by
    rw [hsplit, history_append]
    exact List.mem_append_right _ he
  obtain ⟨hnames, hmoves⟩ := countsNamed_history since _ e he k (hlive e hmem k) hmoved
  exact hnone ⟨e, he, hnames, hmoves⟩

theorem not_expired_of_entries {now : ℤ} {d : Data S}
    (h : d.entries.all (fun e => !e.2.isExpired now) = true) (k : Bytes) : ¬ Expired now k d := by
  intro hexp
  obtain ⟨v, hv, hexp⟩ := hexp
  have hnot := List.all_eq_true.mp h _ (UMap.mem_entries_iff.mpr hv)
  simp [hexp] at hnot

/-- A server whose key `k` holds `v`. -/
def holdsV : System NatScore Unit := (System.fresh ∅).run .standalone [request 1 ["SET", "k", "v"]]

/-- Client 0 watches `k`, client 1 sets it to `w`. -/
theorem abort_justified_set :
    let rs := [request 0 ["WATCH", "k"], request 1 ["SET", "k", "w"], request 0 ["MULTI"]]
    ((holdsV.run .standalone rs).step .standalone (request 0 ["EXEC"])).1 = execAbortReply ∧
      AbortJustified .standalone 0 [.exec, .unwatch]
        (fun k e => ¬ SameLiveAt e.now k e.before e.after ∨ e.cmd.any Command.rewrites = true)
        holdsV rs := by
  intro rs
  have habort : ((holdsV.run .standalone rs).step .standalone (request 0 ["EXEC"])).1 =
      execAbortReply := by decide
  refine ⟨habort, abort_justified .standalone holdsV 0 rs (request 0 ["EXEC"]) rfl ?_
    ⟨rfl, by decide⟩ habort⟩
  intro e he k
  apply not_expired_of_entries
  revert e
  decide

/-- A `SET` of the value that a live string has is counted, but not seen. -/
theorem sameLiveAt_set_same (now : ℤ) (key text : Bytes) {d : Data S} {v : RedisValue S}
    (hv : d.find? key = some v) (htype : v.type = .string) (htext : v.strVal = text) (k : Bytes) :
    SameLiveAt now k d (Database.incrementModCount key (Database.set key text d)) := by
  by_cases hk : k = key
  · subst hk
    let write : RedisValue S → RedisValue S := fun v => { v with type := .string, strVal := text }
    have hset : Database.incrementModCount k (Database.set k text d) =
        Database.writeThrough (fun v => (write v).bump) k d := incrementModCount_writeThrough write k d
    rw [hset, sameLiveAt_write_iff now k d (fun v => (write v).bump) fun _ => rfl]
    refine ⟨v, hv, .inr ⟨htype, ?_⟩⟩
    rw [htype]
    exact htext
  · exact sameLiveAt_of_find? (OnlyAt.trans (.set key _ d) (.incrementModCount key _) k hk)

/-- Client 1 sets `k` to what it holds; client 0, which watches it, is aborted. -/
theorem abort_without_change :
    ¬ ∀ (env : Env Unit) (sys : System NatScore Unit) (A : ℕ) (rs : List Request) (exec : Request),
      (sys.clients A).watchedKeys = ∅ →
      (∀ e ∈ sys.history env rs, ∀ k, ¬ Expired e.now k e.before) →
      exec.client = A ∧ exec.command.command? = some .exec →
      ((sys.run env rs).step env exec).1 = execAbortReply →
        AbortJustified env A [.exec, .discard, .unwatch]
          (fun k e => ¬ SameLiveAt e.now k e.before e.after) sys rs := by
  intro h
  let rs := [request 0 ["WATCH", "k"], request 1 ["SET", "k", "v"], request 0 ["MULTI"]]
  have hsame : ∀ e ∈ holdsV.history .standalone rs, ∀ k, SameLiveAt e.now k e.before e.after := by
    intro e he k
    rcases List.mem_cons.mp he with rfl | he
    · exact sameLiveAt_of_find? rfl
    · rcases List.mem_cons.mp he with rfl | he
      · exact sameLiveAt_set_same 0 (str "k") (str "v")
          (v := { type := .string, modCount := 1, strVal := str "v" }) rfl rfl rfl k
      · rw [List.mem_singleton.mp he]
        exact sameLiveAt_of_find? rfl
  have hlive : ∀ e ∈ holdsV.history .standalone rs, ∀ k, ¬ Expired e.now k e.before := by
    intro e he k
    apply not_expired_of_entries
    revert e
    decide
  obtain ⟨k, before, watch, since, hsplit, -, e, he, -, hchanged⟩ :=
    h .standalone holdsV 0 rs (request 0 ["EXEC"]) rfl hlive ⟨rfl, by decide⟩ (by decide)
  refine hchanged (hsame e ?_ k)
  have hrs : rs = (before ++ [watch]) ++ since := by
    rw [hsplit, List.append_assoc]
    rfl
  rw [hrs, history_append]
  exact List.mem_append_right _ he

end MinimalRedis
