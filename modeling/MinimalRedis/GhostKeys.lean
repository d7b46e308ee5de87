import MinimalRedis.Footprints

/-!
# Which commands create and which only read

`data[key]` and `increment_mod_count` both create a missing entry.  The handlers count after calls that
may fail, find another type or erase an expired entry, and each of them **counts only what is there**.

* `NewUncounted` — a call creates no entry with a counter other than zero, so it is no count of a
  missing key;
* `along_dataProg` — every call of a data command is of this kind;
* `no_ghost_keys` — only the six writing commands create an entry, at the key they name;
* `reads_keep_entries` — the read-only commands erase expired entries and change nothing else.
-/

namespace MinimalRedis

open Lib

variable {S : Type} [Score S] {Λ : Type}

/-! ### Calls -/

/-- The call is no `increment_mod_count` of a missing key. -/
def CountsPresent (d d' : Data S) : Prop :=
  ∀ k, d.find? k = none → d' ≠ Database.incrementModCount k d

/-- A new entry starts with counter zero. -/
def NewUncounted (d d' : Data S) : Prop :=
  ∀ k v, d.find? k = none → d'.find? k = some v → v.modCount = 0

theorem NewUncounted.countsPresent {d d' : Data S} (h : NewUncounted d d') : CountsPresent d d' := by
  intro k hnone heq
  have hghost : (Database.incrementModCount k d).find? k = some { type := .string, modCount := 1 } := by
    rw [Database.incrementModCount, hnone]
    exact UMap.find?_set_self _ _ _
  rw [← heq] at hghost
  have := h k _ hnone hghost
  simp at this

section Calls

variable {α : Type} {now : ℤ} {key : Bytes} {d d' : Data S}

theorem newUncounted_refl (d : Data S) : NewUncounted d d := by
  intro k v hnone hv
  rw [hnone] at hv
  cases hv

theorem newUncounted_erase (key : Bytes) (d : Data S) : NewUncounted d (d.erase key) := by
  intro k v hnone hv
  rw [UMap.find?_erase] at hv
  split at hv
  · cases hv
  · rw [hnone] at hv
    cases hv

theorem newUncounted_purged (h : Purged now key d d') : NewUncounted d d' := by
  rcases h with rfl | ⟨-, rfl⟩
  · exact newUncounted_refl _
  · exact newUncounted_erase key d

/-- Assigning at a key creates nothing else, and nothing at all when it is present. -/
theorem newUncounted_set {v : RedisValue S} (h : d.find? key = none → v.modCount = 0) :
    NewUncounted d (d.set key v) := by
  intro k w hnone hw
  rw [UMap.find?_set] at hw
  split at hw
  · rename_i hk
    rw [hk] at hnone
    rw [← Option.some.inj hw]
    exact h hnone
  · rw [hnone] at hw
    cases hw

theorem newUncounted_increment (h : d.find? key ≠ none) :
    NewUncounted d (Database.incrementModCount key d) := by
  unfold Database.incrementModCount
  split
  · exact newUncounted_set fun hnone => absurd hnone h
  · rename_i hnone
    exact absurd hnone h

theorem newUncounted_writeThrough {write : RedisValue S → RedisValue S}
    (h : (write default).modCount = 0) : NewUncounted d (Database.writeThrough write key d) := by
  refine newUncounted_set fun hnone => ?_
  rw [hnone]
  exact h

theorem newUncounted_updateTyped (type : RedisType) (absent : α)
    (update : RedisValue S → α × RedisValue S) :
    NewUncounted d (Database.updateTyped type absent update key d).2 := by
  rcases updateTyped_cases type absent update key d with h | ⟨v, hv, -, h⟩
  · rw [h]
    exact newUncounted_refl d
  · rw [h]
    refine newUncounted_set fun hnone => ?_
    rw [hv] at hnone
    cases hnone

theorem newUncounted_ifLive_set (absent result : α) (write : RedisValue S → RedisValue S) :
    NewUncounted d
      (Database.ifLive now absent (fun v => (result, d.set key (write v))) key d).2 := by
  rcases ifLive_cases now absent (fun v => (result, d.set key (write v))) key d with
    ⟨h, -⟩ | ⟨v, hv, h⟩
  · exact newUncounted_purged h
  · rw [h]
    refine newUncounted_set fun hnone => ?_
    rw [hv] at hnone
    cases hnone

theorem find?_updateTyped_ne_none {type : RedisType} {absent : α}
    {update : RedisValue S → α × RedisValue S}
    (h : (Database.updateTyped type absent update key d).1 ≠ absent) :
    (Database.updateTyped type absent update key d).2.find? key ≠ none := by
  rcases updateTyped_cases type absent update key d with hsame | ⟨v, -, -, hset⟩
  · rw [hsame] at h
    exact absurd rfl h
  · rw [hset, UMap.find?_set_self]
    simp

theorem find?_ifLive_set_ne_none {write : RedisValue S → RedisValue S}
    (h : (Database.ifLive now false (fun v => (true, d.set key (write v))) key d).1 = true) :
    (Database.ifLive now false (fun v => (true, d.set key (write v))) key d).2.find? key ≠ none := by
  rcases ifLive_cases now false (fun v => (true, d.set key (write v))) key d with
    ⟨-, hfalse⟩ | ⟨v, -, hlive⟩
  · rw [hfalse] at h
    cases h
  · rw [hlive, UMap.find?_set_self]
    simp

theorem find?_writeThrough_ne_none (write : RedisValue S → RedisValue S) :
    (Database.writeThrough write key d).find? key ≠ none := by
  rw [Database.writeThrough, UMap.find?_set_self]
  simp

end Calls

/-! ### Programs -/

/-- Every call of the run creates no counted entry. -/
abbrev CreatesUncounted {α : Type} (now : ℤ) (p : DataProg S α) (d : Data S) : Prop :=
  p.Along NewUncounted now d

section Programs

variable {now : ℤ} {key : Bytes} {args : Args} {d : Data S}

theorem along_guarded {α : Type} {parsed : Option α} {refusal : Bytes} {body : α → DataProg S Bytes}
    (h : ∀ a, parsed = some a → CreatesUncounted now (body a) d) :
    CreatesUncounted now (guarded parsed refusal body) d := by
  cases parsed with
  | none => trivial
  | some a => exact h a rfl

theorem along_countedProg {count : Bool} (reply : Bytes) (h : count = true → d.find? key ≠ none) :
    CreatesUncounted now (countedProg key count reply) d := by
  cases count with
  | false => trivial
  | true => exact ⟨newUncounted_increment (h rfl), trivial⟩

theorem newUncounted_keyExists : NewUncounted d (Database.keyExists now key d).2 :=
  newUncounted_purged (purged_keyExists now key d)

theorem newUncounted_type : NewUncounted d (Database.type now key d).2 :=
  newUncounted_purged (purged_ifLive now RedisType.string (fun v => v.type) key d)

/-- A key that was found is still there. -/
theorem find?_keyExists_ne_none (h : (Database.keyExists now key d).1 = true) :
    (Database.keyExists now key d).2.find? key ≠ none := by
  obtain ⟨v, hv⟩ := find?_of_keyExists h
  rw [Database.keyExists_snd h, hv]
  simp

theorem along_popProg {value : Bytes} (h : value ≠ [] → d.find? key ≠ none) :
    CreatesUncounted now (popProg key value) d := by
  unfold popProg
  by_cases hvalue : value = []
  · rw [if_pos hvalue]
    refine ⟨newUncounted_keyExists, ?_⟩
    cases hfound : (Database.keyExists now key d).1 with
    | false => trivial
    | true => exact ⟨newUncounted_increment (find?_keyExists_ne_none hfound), trivial⟩
  · rw [if_neg hvalue]
    exact ⟨newUncounted_increment (h hvalue), trivial⟩

theorem along_hsetLoopProg (vs : List RespValue) (fieldsSet : ℕ) :
    CreatesUncounted now (hsetLoopProg key vs fieldsSet) d := by
  fun_induction hsetLoopProg (S := S) key vs fieldsSet generalizing d with
  | case1 field value rest fieldsSet f hf v hv ih =>
    exact ⟨newUncounted_writeThrough rfl, ih⟩
  | case2 => trivial
  | case3 => trivial

/-- The loop of `HSET` leaves the key in place once it has set a field. -/
theorem find?_hsetLoop_ne_none {vs : List RespValue} {fieldsSet n : ℕ}
    (h : (hsetLoop key vs fieldsSet d).1 = some n) (hn : n > 0)
    (hkey : fieldsSet > 0 → d.find? key ≠ none) :
    (hsetLoop key vs fieldsSet d).2.find? key ≠ none := by
  fun_induction hsetLoop key vs fieldsSet d with
  | case1 field value rest fieldsSet d f v hv hf ih =>
    exact ih h fun _ => find?_writeThrough_ne_none _
  | case2 => cases h
  | case3 vs fieldsSet d hshort =>
    rw [Option.some.inj h] at hkey
    exact hkey hn

end Programs

/-- Every call of a data command creates no counted entry. -/
theorem along_dataProg (writable : Bool) (now : ℤ) (cmd : Command) (args : Args) (d : Data S) :
    CreatesUncounted now (dataProg writable cmd args) d := by
  cases cmd with
  | set =>
    refine along_guarded fun x _ => ⟨newUncounted_writeThrough rfl, ?_⟩
    exact ⟨newUncounted_increment (find?_writeThrough_ne_none _), trivial⟩
  | get =>
    refine along_guarded fun key _ => ⟨newUncounted_keyExists, .ite trivial ?_⟩
    refine ⟨newUncounted_type, .ite trivial ?_⟩
    exact ⟨newUncounted_purged (purged_ifTypedLive now .string [] _ key _), trivial⟩
  | del =>
    refine along_guarded fun key _ => ⟨newUncounted_keyExists, ?_⟩
    cases hfound : (Database.keyExists now key d).1 with
    | false => exact ⟨newUncounted_erase key _, trivial⟩
    | true =>
      exact ⟨newUncounted_increment (find?_keyExists_ne_none hfound), newUncounted_erase key _, trivial⟩
  | existsKey => exact along_guarded fun key _ => ⟨newUncounted_keyExists, trivial⟩
  | keys | save => exact along_guarded fun _ _ => ⟨newUncounted_refl d, trivial⟩
  | type =>
    refine along_guarded fun key _ => ⟨newUncounted_keyExists, .ite trivial ?_⟩
    exact ⟨newUncounted_type, trivial⟩
  | lpush | rpush | sadd =>
    refine along_guarded fun x _ =>
      Prog.along_bind (p := callUpdate _) ⟨newUncounted_writeThrough rfl, trivial⟩ ?_
    exact along_countedProg _ fun _ => find?_writeThrough_ne_none _
  | zadd =>
    refine along_guarded fun x _ =>
      Prog.along_bind (p := callUpdate _) ⟨newUncounted_writeThrough ?_, trivial⟩ ?_
    · exact modCount_foldl_zaddOne x.2 _
    · exact along_countedProg _ fun _ => find?_writeThrough_ne_none _
  | lpop | rpop =>
    refine along_guarded fun key _ => ⟨newUncounted_updateTyped _ _ _, ?_⟩
    exact along_popProg find?_updateTyped_ne_none
  | llen =>
    refine along_guarded fun key _ => ⟨?_, trivial⟩
    exact newUncounted_purged (purged_ifTypedLive now .list 0 _ key d)
  | lrange | zrange | zrevrange | sismember | scard | smembers | sinter | sunion | sdiff | hlen | hkeys
  | hvals | hgetall | zcard =>
    exact along_guarded fun _ _ => ⟨newUncounted_refl d, trivial⟩
  | zrank => exact along_guarded fun _ _ => ⟨newUncounted_refl d, .ite trivial trivial⟩
  | lindex =>
    refine along_guarded fun x _ => ⟨newUncounted_refl d, .ite ?_ trivial⟩
    exact ⟨newUncounted_keyExists, trivial⟩
  | srem =>
    refine along_guarded fun x _ => ⟨newUncounted_updateTyped _ _ _, ?_⟩
    refine along_countedProg _ fun hcount => find?_updateTyped_ne_none ?_
    exact Nat.ne_of_gt (of_decide_eq_true hcount)
  | hdel | zrem =>
    refine along_guarded fun x _ => ⟨newUncounted_updateTyped _ _ _, ?_⟩
    refine along_countedProg _ fun hcount => find?_updateTyped_ne_none ?_
    exact ne_of_eq_of_ne hcount (by decide)
  | hset =>
    refine along_guarded fun key _ => Prog.along_bind (along_hsetLoopProg _ 0) ?_
    have hrun := run_hsetLoopProg key (args.drop 2) 0 now d
    cases hn : ((hsetLoopProg key (args.drop 2) 0).run now d).1 with
    | none => trivial
    | some n =>
      refine along_countedProg _ fun hcount => ?_
      rw [hrun] at hn ⊢
      exact find?_hsetLoop_ne_none hn (of_decide_eq_true hcount) fun h => absurd h (by simp)
  | hget =>
    refine along_guarded fun x _ => ⟨newUncounted_refl d, .ite ?_ trivial⟩
    refine ⟨newUncounted_keyExists, .ite ?_ trivial⟩
    exact ⟨newUncounted_type, trivial⟩
  | zscore =>
    refine along_guarded fun x _ => ⟨newUncounted_refl d, .ite ?_ trivial⟩
    refine ⟨newUncounted_keyExists, .ite trivial ?_⟩
    exact ⟨newUncounted_refl _, .ite trivial trivial⟩
  | expire | pexpire | persist =>
    refine along_guarded fun x _ => ⟨newUncounted_ifLive_set _ _ _, ?_⟩
    exact along_countedProg _ find?_ifLive_set_ne_none
  | ttl | pttl =>
    refine along_guarded fun key _ => ⟨?_, trivial⟩
    exact newUncounted_purged (purged_ifLive now (-2) _ key d)
  | _ => trivial

theorem along_watchLoopProg (now : ℤ) (vs : List RespValue) (watched : UMap Bytes UInt64)
    (d : Data S) : CreatesUncounted now (watchLoopProg vs watched) d := by
  induction vs generalizing watched with
  | nil => trivial
  | cons v vs ih =>
    rw [watchLoopProg]
    cases v.bulk? with
    | none => trivial
    | some key => exact ⟨newUncounted_refl d, ih _⟩

section Commands

variable {env : Env Λ} {now : ℤ} {writable : Bool} {p : Processor Λ} {d : Data S}

theorem along_dispatchProg {cmd : Option Command} (hexec : cmd ≠ some .exec)
    (heval : cmd ≠ some .eval) (hsha : cmd ≠ some .evalsha) (args : Args) :
    CreatesUncounted now (dispatchProg env writable cmd args p) d := by
  cases cmd with
  | none => trivial
  | some c =>
    by_cases hdata : c.onData = true
    · have hprog : dispatchProg (S := S) env writable (some c) args p =
          (dataProg writable c args).bind fun reply => .ret (.reply reply, p) := by
        cases c <;> first | rfl | cases hdata
      rw [hprog]
      exact Prog.along_bind (along_dataProg writable now c args d) trivial
    · cases c with
      | watch =>
        refine Prog.along_bind ?_ trivial
        unfold watchProg
        exact .ite trivial (.ite trivial (Prog.along_bind (along_watchLoopProg now _ _ d) trivial))
      | exec => exact absurd rfl hexec
      | eval => exact absurd rfl heval
      | evalsha => exact absurd rfl hsha
      | multi | discard | unwatch | subscribe | publish | unsubscribe | script | cluster | info => trivial
      | _ => exact absurd rfl hdata

theorem along_commandProg {command : RespValue} (hexec : command.command? ≠ some .exec)
    (heval : command.command? ≠ some .eval) (hsha : command.command? ≠ some .evalsha) :
    CreatesUncounted now (commandProg env writable command p) d := by
  unfold commandProg
  split
  · rename_i name rest
    refine .ite trivial ?_
    split
    · trivial
    · exact along_dispatchProg hexec heval hsha _
  · trivial
  · trivial

end Commands

/-! ### Creation -/

/-- The commands that create a missing entry. -/
def Command.creates : Command → Bool
  | .set | .lpush | .rpush | .sadd | .hset | .zadd => true
  | _ => false

theorem creates_of_created {k : Bytes} {cmd : Option Command} {args : Args}
    (h : Creates S k cmd args) : NamesKey k args ∧ ∃ c, cmd = some c ∧ c.creates = true := by
  obtain ⟨name, rest, hargs, hcmd⟩ := h
  refine ⟨⟨name, rest, hargs⟩, ?_⟩
  split at hcmd
  all_goals first | exact ⟨_, rfl, rfl⟩ | cases hcmd

theorem creates_of_uncounted {k : Bytes} {cmd : Option Command} {args : Args} {d : Data S}
    (h : Uncounted k cmd args d) : NamesKey k args ∧ ∃ c, cmd = some c ∧ c.creates = true := by
  obtain ⟨name, rest, hargs, hcmd⟩ := h
  refine ⟨⟨name, rest, hargs⟩, ?_⟩
  split at hcmd
  all_goals first | exact ⟨_, rfl, rfl⟩ | cases hcmd

theorem created_dispatch (env : Env Λ) (now : ℤ) {k : Bytes} {cmd : Option Command} {args : Args}
    {s : Session S Λ} (hexec : cmd ≠ some .exec) (heval : cmd ≠ some .eval)
    (hsha : cmd ≠ some .evalsha) (hnone : s.world.data.find? k = none)
    (hsome : (dispatch env now cmd args s).2.world.data.find? k ≠ none) :
    NamesKey k args ∧ ∃ c, cmd = some c ∧ c.creates = true := by
  by_cases hcounted : Uncounted k cmd args s.world.data
  · exact creates_of_uncounted hcounted
  · rcases outcome_dispatch env now hexec heval hsha hcounted with
      hsame | ⟨-, hlost⟩ | ⟨w, -, -, hnew⟩
    · exact absurd (hsame.trans hnone) hsome
    · exact absurd hlost hsome
    · exact creates_of_created (hnew hnone)

/-- For every state and every command but `EXEC` and script calls: a key that appears is the one that a
writing command names, and no missing key is counted on the way. -/
theorem no_ghost_keys (env : Env Λ) (now : ℤ) (command : RespValue) (s : Session S Λ)
    (hexec : command.command? ≠ some .exec) (heval : command.command? ≠ some .eval)
    (hsha : command.command? ≠ some .evalsha) :
    (∀ k, s.world.data.find? k = none →
      (processCommand env now command s).2.world.data.find? k ≠ none →
        ∃ name rest cmd, command = .array (.bulkString name :: .bulkString k :: rest) ∧
          Command.ofName name = some cmd ∧ cmd.creates = true) ∧
    (commandProg env s.world.fileWritable command s.self).Along CountsPresent now s.world.data := by
  constructor
  · intro k hnone hsome
    unfold processCommand at hsome
    split at hsome
    · rename_i name rest
      dsimp only at hsome
      split at hsome
      · exact absurd hnone hsome
      · unfold routeAndDispatch at hsome
        split at hsome
        · exact absurd hnone hsome
        · obtain ⟨⟨name', rest', hargs⟩, cmd, hcmd, hcreates⟩ :=
            created_dispatch env now hexec heval hsha hnone hsome
          obtain ⟨rfl, rfl⟩ := List.cons.inj hargs
          exact ⟨name, rest', cmd, rfl, hcmd, hcreates⟩
    · exact absurd hnone hsome
    · exact absurd hnone hsome
  · exact (along_commandProg hexec heval hsha).mono fun _ _ h => h.countsPresent

/-- An `LPOP` of an expired list. -/
theorem no_ghost_keys_lpop_stale :
    (∀ k, staleList.find? k = none → (processCommand .standalone 5
        (.array [.bulkString (str "LPOP"), .bulkString (str "k")])
        (Session.fresh staleList)).2.world.data.find? k ≠ none →
      ∃ name rest cmd, RespValue.array [.bulkString (str "LPOP"), .bulkString (str "k")] =
          .array (.bulkString name :: .bulkString k :: rest) ∧
        Command.ofName name = some cmd ∧ cmd.creates = true) ∧
    (commandProg .standalone true (.array [.bulkString (str "LPOP"), .bulkString (str "k")])
      (Session.fresh staleList).self).Along CountsPresent 5 staleList :=
  no_ghost_keys .standalone 5 (.array [.bulkString (str "LPOP"), .bulkString (str "k")])
    (Session.fresh staleList) (by decide) (by decide) (by decide)

/-! ### Read-only commands -/

def Command.readOnly : Command → Bool
  | .get | .existsKey | .keys | .type | .llen | .lrange | .lindex => true
  | .sismember | .scard | .smembers | .sinter | .sunion | .sdiff => true
  | .hget | .hlen | .hkeys | .hvals | .hgetall => true
  | .zcard | .zrange | .zrevrange | .zscore | .zrank => true
  | .ttl | .pttl | .watch | .save => true
  | _ => false

/-- The entry at `k` is as it was, or it had expired and is erased. -/
def KeptUnlessExpired (now : ℤ) (k : Bytes) (d d' : Data S) : Prop :=
  d'.find? k = d.find? k ∨ Expired now k d ∧ d'.find? k = none

theorem kept_of_purgesNamed {now : ℤ} {args : Args} {d d' : Data S} (h : PurgesNamed now args d d')
    (k : Bytes) : KeptUnlessExpired now k d d' := by
  rcases h with rfl | ⟨name, key, rest, -, rfl | ⟨hexp, rfl⟩⟩
  · exact .inl rfl
  · exact .inl rfl
  · by_cases hk : k = key
    · rw [hk]
      exact .inr ⟨hexp, UMap.find?_erase_self _ _⟩
    · exact .inl (UMap.find?_erase_ne d hk)

theorem kept_dispatch (env : Env Λ) (now : ℤ) {cmd : Command} (hread : cmd.readOnly = true)
    (args : Args) (s : Session S Λ) (k : Bytes) :
    KeptUnlessExpired now k s.world.data (dispatch env now (some cmd) args s).2.world.data := by
  have hpurges : ∀ {d' : Data S}, PurgesNamed now args s.world.data d' →
      KeptUnlessExpired now k s.world.data d' := fun h => kept_of_purgesNamed h k
  have hsame : ∀ {d' : Data S}, d' = s.world.data → KeptUnlessExpired now k s.world.data d' :=
    fun h => .inl (by rw [h])
  cases cmd with
  | get => exact hpurges purgesNamed_get
  | existsKey => exact hpurges (purgesNamed_withKey fun key => purged_keyExists now key _)
  | type => exact hpurges purgesNamed_type
  | llen => exact hpurges (purgesNamed_withKey fun key => purged_ifTypedLive now .list 0 _ key _)
  | lindex => exact hpurges purgesNamed_lindex
  | hget => exact hpurges purgesNamed_hget
  | zscore => exact hpurges purgesNamed_zscore
  | ttl | pttl => exact hpurges (purgesNamed_withKey fun key => purged_ifLive now (-2) _ key _)
  | lrange | zrange | zrevrange | sinter | sunion | sdiff | scard | smembers | hlen | hkeys | hvals
  | hgetall | zcard | sismember | zrank | keys | save =>
    apply hsame
    refine data_dispatch_of_inspects env now ?_ args s
    rfl
  | watch =>
    apply hsame
    refine data_dispatch env now ?_ ?_ ?_ ?_ args s <;> decide
  | _ => cases hread

/-- Directly or from a transaction's queue, a read-only command leaves every entry as it is, but for
expired ones that it may erase. -/
theorem reads_keep_entries (env : Env Λ) (now : ℤ) (s : Session S Λ) {cmd : Command}
    (hread : cmd.readOnly = true) :
    (∀ command, command.command? = some cmd → ∀ k,
      KeptUnlessExpired now k s.world.data (processCommand env now command s).2.world.data) ∧
    ∀ tx, queuedCommand tx = some cmd → ∀ k,
      KeptUnlessExpired now k s.world.data (executeFunc now tx s).2.world.data := by
  constructor
  · intro command hcommand k
    unfold processCommand
    split
    · rename_i name rest
      dsimp only
      split
      · exact .inl rfl
      · unfold routeAndDispatch
        split
        · exact .inl rfl
        · have hcmd : Command.ofName name = some cmd := hcommand
          rw [hcmd]
          exact kept_dispatch env now hread _ s k
    · exact .inl rfl
    · exact .inl rfl
  · intro tx htx k
    rw [executeFunc_eq_dispatch env, htx]
    exact kept_dispatch env now hread tx.args s k

/-- `GET` of an expired list, which it erases. -/
theorem reads_keep_entries_get_stale : Command.readOnly .get = true ∧ ∀ k,
    KeptUnlessExpired 5 k staleList (processCommand .standalone 5
      (.array [.bulkString (str "GET"), .bulkString (str "k")])
      (Session.fresh staleList)).2.world.data := by
  have hread : Command.readOnly .get = true := rfl
  exact ⟨hread, (reads_keep_entries .standalone 5 (Session.fresh staleList) hread).1 _ (by decide)⟩

end MinimalRedis
