import MinimalRedis.Lib.Locality
import MinimalRedis.Programs
import MinimalRedis.SetAlgebra

/-!
# The footprint of a command

A data command names its keys in its arguments (`keyArguments`).  Whatever it calls of the store, it
reads, erases, counts and creates entries **under these keys only**.

* `within_ifLive`, `within_updateTyped`, … — the access patterns, each within its key;
* `callsWithin_dataProg` — every call of a data command's program is within the keys it names;
* `within_dispatch` — so is the command as a whole;
* `commands_commute` — commands on different keys commute.
-/

namespace MinimalRedis

open Lib

variable {S : Type} [Score S] {Λ : Type}

/-! ### Key arguments -/

/-- The data commands that name their keys: all but `KEYS` and `SAVE`. -/
def Command.keyed (cmd : Command) : Bool := cmd.onData && cmd ≠ .keys && cmd ≠ .save

def firstKey? (args : Args) : Option Bytes := args[1]?.bind RespValue.bulk?

/-- The keys among the arguments: all of them for the multi-key reads, otherwise the first. -/
def keyArguments (cmd : Command) (args : Args) : List Bytes :=
  match cmd with
  | .sinter | .sunion | .sdiff => args.tail.filterMap RespValue.bulk?
  | cmd => if cmd.keyed then (firstKey? args).toList else []

/-! ### Access patterns -/

/-- An operation on the data within the given keys. -/
abbrev WithinKeys {α : Type} (keys : Set Bytes) (m : Data S → α × Data S) : Prop :=
  Within UMap.find? keys m

section Patterns

variable {α : Type} {now : ℤ} {key : Bytes}

theorem within_key {m : Data S → α × Data S} (honly : ∀ d, OnlyAt key d (m d).2)
    (h : ∀ d d', d.find? key = d'.find? key →
      (m d).1 = (m d').1 ∧ (m d).2.find? key = (m d').2.find? key) : WithinKeys {key} m where
  frame d k hk := honly d k hk
  result d d' hd := (h d d' (hd key rfl)).1
  effect d d' hd k hk := by
    rw [Set.mem_singleton_iff.mp hk]
    exact (h d d' (hd key rfl)).2

/-- The `ifLive` methods, which read the entry they find or assign it. -/
theorem within_ifLive (absent : α) (result : RedisValue S → α)
    (write : RedisValue S → Option (RedisValue S)) :
    WithinKeys {key} fun d => Database.ifLive now absent
      (fun v => (result v, ((write v).map (d.set key)).getD d)) key d := by
  apply within_key
  · intro d
    rcases ifLive_cases now absent
      (fun v => (result v, ((write v).map (d.set key)).getD d)) key d with ⟨h, -⟩ | ⟨v, -, h⟩
    · exact .of_purged h
    · rw [h]
      cases write v with
      | none => exact .refl key d
      | some w => exact .set key w d
  · intro d d' hd
    unfold Database.ifLive
    rw [hd]
    cases hv : d'.find? key with
    | none => exact ⟨rfl, hd⟩
    | some v =>
      dsimp only
      split
      · simp [UMap.find?_erase_self]
      · cases write v with
        | none => exact ⟨rfl, hd⟩
        | some w => simp [UMap.find?_set_self]

theorem within_ifTypedLive (type : RedisType) (absent : α) (live : RedisValue S → α) :
    WithinKeys {key} (Database.ifTypedLive now type absent live key) := by
  apply within_key
  · intro d
    exact .of_purged (purged_ifTypedLive now type absent live key d)
  · intro d d' hd
    unfold Database.ifTypedLive
    rw [hd]
    cases hv : d'.find? key with
    | none => exact ⟨rfl, hd⟩
    | some v =>
      dsimp only
      split
      · split
        · simp [UMap.find?_erase_self]
        · exact ⟨rfl, hd⟩
      · exact ⟨rfl, hd⟩

theorem within_readTyped (type : RedisType) (absent : α) (read : RedisValue S → α) :
    WithinKeys {key} fun d => (Database.readTyped type absent read key d, d) := by
  apply Within.read
  intro d d' hd
  unfold Database.readTyped
  rw [hd key rfl]

theorem within_updateTyped (type : RedisType) (absent : α)
    (update : RedisValue S → α × RedisValue S) :
    WithinKeys {key} (Database.updateTyped type absent update key) := by
  apply within_key
  · intro d
    rcases updateTyped_cases type absent update key d with h | ⟨v, -, -, h⟩
    · rw [h]
      exact .refl key d
    · rw [h]
      exact .set key _ d
  · intro d d' hd
    unfold Database.updateTyped
    rw [hd]
    cases hv : d'.find? key with
    | none => exact ⟨rfl, hd⟩
    | some v =>
      dsimp only
      split
      · simp [UMap.find?_set_self]
      · exact ⟨rfl, hd⟩

/-- The writes through `data[key]`, with a result read off the entry before and after. -/
theorem within_writeThrough (write : RedisValue S → RedisValue S)
    (result : Option (RedisValue S) → Option (RedisValue S) → α) :
    WithinKeys {key} fun d => (result (d.find? key) ((Database.writeThrough write key d).find? key),
      Database.writeThrough write key d) := by
  apply within_key
  · intro d
    exact .set key _ d
  · intro d d' hd
    unfold Database.writeThrough
    simp [UMap.find?_set_self, hd]

theorem within_increment : WithinKeys {key} fun d : Data S =>
    ((), Database.incrementModCount key d) := by
  apply within_key
  · exact fun d => .incrementModCount key d
  · intro d d' hd
    unfold Database.incrementModCount
    rw [hd]
    cases d'.find? key <;> simp [UMap.find?_set_self]

theorem within_del : WithinKeys {key} (Database.del (S := S) key) := by
  apply within_key
  · exact fun d => .erase key d
  · intro d d' hd
    simp [Database.del, hd, UMap.find?_erase_self]

end Patterns

/-! ### The multi-key reads -/

section Several

variable {keys : List Bytes} {d d' : Data S}

theorem setAt_congr {key : Bytes} (h : d.find? key = d'.find? key) :
    Database.setAt key d = Database.setAt key d' := by
  unfold Database.setAt Database.readTyped
  rw [h]

theorem within_keys {α : Type} {read : List Bytes → Data S → α}
    (hread : ∀ {d d'}, (∀ k ∈ keys, Database.setAt k d = Database.setAt k d') →
      read keys d = read keys d') :
    WithinKeys {k | k ∈ keys} fun d => (read keys d, d) :=
  .read fun _ _ h => hread fun k hk => setAt_congr (h k hk)

end Several

/-! ### Programs -/

/-- Every call of the program is within the given keys. -/
abbrev CallsWithinKeys {α : Type} (keys : Set Bytes) (p : DataProg S α) : Prop :=
  p.CallsWithin UMap.find? keys

section Programs

variable {α : Type} {keys : Set Bytes} {key : Bytes} {args : Args}

theorem callsWithin_guarded {parsed : Option α} {refusal : Bytes} {body : α → DataProg S Bytes}
    (h : ∀ a, parsed = some a → CallsWithinKeys keys (body a)) :
    CallsWithinKeys keys (guarded parsed refusal body) := by
  cases parsed with
  | none => exact .ret _
  | some a => exact h a rfl

theorem callsWithin_callAt {m : ℤ → Data S → α × Data S} (h : ∀ now, WithinKeys keys (m now)) :
    CallsWithinKeys keys (callAt m) := .lift h

theorem callsWithin_callUpdate {m : Data S → α × Data S} (h : WithinKeys keys m) :
    CallsWithinKeys keys (callUpdate m) := .lift fun _ => h

theorem callsWithin_callRead {m : Data S → α} (h : WithinKeys keys fun d => (m d, d)) :
    CallsWithinKeys keys (callRead m) := .lift fun _ => h

theorem callsWithin_callWrite {m : Data S → Data S} (h : WithinKeys keys fun d => ((), m d)) :
    CallsWithinKeys keys (callWrite m) := .lift fun _ => h

theorem callsWithin_keyExists :
    CallsWithinKeys (S := S) {key} (callAt fun now => Database.keyExists now key) :=
  callsWithin_callAt fun _ => within_ifLive false (fun _ => true) fun _ => none

theorem callsWithin_type :
    CallsWithinKeys (S := S) {key} (callAt fun now => Database.type now key) :=
  callsWithin_callAt fun _ => within_ifLive .string (fun v => v.type) fun _ => none

theorem callsWithin_increment :
    CallsWithinKeys (S := S) {key} (callWrite (Database.incrementModCount key)) :=
  callsWithin_callWrite within_increment

theorem callsWithin_countedProg (count : Bool) (reply : Bytes) :
    CallsWithinKeys (S := S) {key} (countedProg key count reply) := by
  cases count with
  | false => exact .ret _
  | true => exact .bind callsWithin_increment fun _ => .ret _

theorem callsWithin_popProg (value : Bytes) : CallsWithinKeys (S := S) {key} (popProg key value) := by
  have hcounted : CallsWithinKeys (S := S) {key}
      ((callWrite (Database.incrementModCount key)).bind fun _ => .ret (bulkReply value)) :=
    .bind callsWithin_increment fun _ => .ret _
  refine .ite (.bind callsWithin_keyExists fun found => ?_) hcounted
  exact .ite (.ret _) hcounted

theorem callsWithin_hsetLoopProg (vs : List RespValue) (fieldsSet : ℕ) :
    CallsWithinKeys (S := S) {key} (hsetLoopProg key vs fieldsSet) := by
  fun_induction hsetLoopProg (S := S) key vs fieldsSet with
  | case1 field value rest fieldsSet f hf v hv ih =>
    refine .bind (callsWithin_callWrite ?_) fun _ => ih
    exact within_writeThrough _ fun _ _ => ()
  | case2 => exact .ret _
  | case3 => exact .ret _

end Programs

/-! ### The key a command names -/

section Shapes

variable {args : Args}

theorem firstKey?_of_keyArg? {key : Bytes} (h : keyArg? args = some key) :
    firstKey? args = some key := by
  unfold keyArg? at h
  split at h
  · exact h
  · cases h

theorem firstKey?_of_twoArgs? {x : Bytes × Bytes} (h : twoArgs? args = some x) :
    firstKey? args = some x.1 := by
  unfold twoArgs? at h
  split at h
  · obtain ⟨key, hkey, h⟩ := Option.bind_eq_some_iff.mp h
    obtain ⟨arg, -, rfl⟩ := Option.map_eq_some_iff.mp h
    exact hkey
  · cases h

theorem firstKey?_of_keyAndRest? {x : Bytes × List Bytes} (h : keyAndRest? args = some x) :
    firstKey? args = some x.1 := by
  unfold keyAndRest? at h
  split at h
  · obtain ⟨key, hkey, h⟩ := Option.bind_eq_some_iff.mp h
    obtain ⟨values, -, rfl⟩ := Option.map_eq_some_iff.mp h
    exact hkey
  · cases h

theorem firstKey?_of_rangeArgs? {accepts : ℕ → Bool} {x : Bytes × ℤ × ℤ}
    (h : rangeArgs? accepts args = some x) : firstKey? args = some x.1 := by
  unfold rangeArgs? at h
  split at h
  · split at h
    · obtain ⟨key, hkey, h⟩ := Option.bind_eq_some_iff.mp h
      obtain ⟨start, -, h⟩ := Option.bind_eq_some_iff.mp h
      obtain ⟨stop, -, rfl⟩ := Option.map_eq_some_iff.mp h
      exact hkey
    · cases h
  · cases h

theorem firstKey?_of_indexArgs? {x : Bytes × ℤ} (h : indexArgs? args = some x) :
    firstKey? args = some x.1 := by
  unfold indexArgs? at h
  split at h
  · obtain ⟨key, hkey, h⟩ := Option.bind_eq_some_iff.mp h
    obtain ⟨index, -, rfl⟩ := Option.map_eq_some_iff.mp h
    exact hkey
  · cases h

theorem firstKey?_of_durationArgs? {x : Bytes × ℤ} (h : durationArgs? args = some x) :
    firstKey? args = some x.1 := by
  obtain ⟨y, hy, h⟩ := Option.bind_eq_some_iff.mp h
  obtain ⟨n, -, rfl⟩ := Option.map_eq_some_iff.mp h
  exact firstKey?_of_twoArgs? hy

theorem firstKey?_of_pairsKey? {key : Bytes} (h : pairsKey? args = some key) :
    firstKey? args = some key := by
  unfold pairsKey? at h
  split at h
  · cases h
  · rename_i harity
    obtain ⟨name, v, rest, rfl⟩ : ∃ name v rest, args = name :: v :: rest := by
      rcases args with _ | ⟨name, _ | ⟨v, rest⟩⟩
      · simp at harity
      · simp at harity
      · exact ⟨name, v, rest, rfl⟩
    exact h

theorem firstKey?_of_zaddArgs? {x : Bytes × List (S × Bytes)} (h : zaddArgs? args = some x) :
    firstKey? args = some x.1 := by
  obtain ⟨key, hkey, h⟩ := Option.bind_eq_some_iff.mp h
  obtain ⟨ps, -, rfl⟩ := Option.map_eq_some_iff.mp h
  exact firstKey?_of_pairsKey? hkey

theorem filterMap_of_allBulk {vs : List RespValue} {keys : List Bytes} (h : allBulk vs = some keys) :
    vs.filterMap RespValue.bulk? = keys := by
  rw [allBulk_eq_some_iff.mp h, List.filterMap_map]
  exact List.filterMap_some

theorem filterMap_of_keyArgs? {keys : List Bytes} (h : keyArgs? args = some keys) :
    args.tail.filterMap RespValue.bulk? = keys := by
  unfold keyArgs? at h
  split at h
  · exact filterMap_of_allBulk h
  · cases h

/-- The commands that name one key. -/
theorem callsWithin_first {α : Type} {cmd : Command} {parsed : Option α} {refusal : Bytes}
    {body : α → DataProg S Bytes} {keyOf : α → Bytes}
    (hcmd : keyArguments cmd args = (firstKey? args).toList)
    (hparsed : ∀ a, parsed = some a → firstKey? args = some (keyOf a))
    (hbody : ∀ a, CallsWithinKeys {keyOf a} (body a)) :
    CallsWithinKeys {k | k ∈ keyArguments cmd args} (guarded parsed refusal body) := by
  refine callsWithin_guarded fun a ha => (hbody a).mono ?_
  intro k hk
  rw [Set.mem_singleton_iff.mp hk, Set.mem_ofPred_eq, hcmd, hparsed a ha]
  simp

end Shapes

/-- Every call of a data command is within the keys it names. -/
theorem callsWithin_dataProg (writable : Bool) {cmd : Command} (hcmd : cmd.keyed = true)
    (args : Args) : CallsWithinKeys (S := S) {k | k ∈ keyArguments cmd args}
      (dataProg writable cmd args) := by
  cases cmd with
  | set =>
    refine callsWithin_first rfl (fun _ => firstKey?_of_twoArgs?) fun x => ?_
    refine .bind (callsWithin_callWrite ?_) fun _ => .bind callsWithin_increment fun _ => .ret _
    exact within_writeThrough _ fun _ _ => ()
  | get =>
    refine callsWithin_first rfl (fun _ => firstKey?_of_keyArg?) fun key => ?_
    refine .bind callsWithin_keyExists fun found => .ite (.ret _) ?_
    refine .bind callsWithin_type fun type => .ite (.ret _) ?_
    exact .bind (callsWithin_callAt fun _ => within_ifTypedLive _ _ _) fun _ => .ret _
  | del =>
    refine callsWithin_first rfl (fun _ => firstKey?_of_keyArg?) fun key => ?_
    have hdel : CallsWithinKeys (S := S) {key}
        ((callUpdate (Database.del key)).bind fun deleted => .ret (boolReply deleted)) :=
      .bind (callsWithin_callUpdate within_del) fun _ => .ret _
    refine .bind callsWithin_keyExists fun found => .ite ?_ hdel
    exact .bind callsWithin_increment fun _ => hdel
  | existsKey =>
    refine callsWithin_first rfl (fun _ => firstKey?_of_keyArg?) fun key => ?_
    exact .bind callsWithin_keyExists fun _ => .ret _
  | type =>
    refine callsWithin_first rfl (fun _ => firstKey?_of_keyArg?) fun key => ?_
    refine .bind callsWithin_keyExists fun found => .ite (.ret _) ?_
    exact .bind callsWithin_type fun _ => .ret _
  | lpush =>
    refine callsWithin_first rfl (fun _ => firstKey?_of_keyAndRest?) fun x => ?_
    refine .bind (callsWithin_callUpdate ?_) fun _ => callsWithin_countedProg _ _
    exact within_writeThrough _ fun _ new => (new.getD default).listVal.length
  | rpush =>
    refine callsWithin_first rfl (fun _ => firstKey?_of_keyAndRest?) fun x => ?_
    refine .bind (callsWithin_callUpdate ?_) fun _ => callsWithin_countedProg _ _
    exact within_writeThrough _ fun _ new => (new.getD default).listVal.length
  | lpop | rpop =>
    refine callsWithin_first rfl (fun _ => firstKey?_of_keyArg?) fun key => ?_
    exact .bind (callsWithin_callUpdate (within_updateTyped _ _ _)) fun _ => callsWithin_popProg _
  | llen =>
    refine callsWithin_first rfl (fun _ => firstKey?_of_keyArg?) fun key => ?_
    exact .bind (callsWithin_callAt fun _ => within_ifTypedLive _ _ _) fun _ => .ret _
  | lrange | zrange | zrevrange =>
    refine callsWithin_first rfl (fun _ => firstKey?_of_rangeArgs?) fun x => ?_
    exact .bind (callsWithin_callRead (within_readTyped _ _ _)) fun _ => .ret _
  | lindex =>
    refine callsWithin_first rfl (fun _ => firstKey?_of_indexArgs?) fun x => ?_
    refine .bind (callsWithin_callRead (within_readTyped _ _ _)) fun _ => .ite ?_ (.ret _)
    exact .bind callsWithin_keyExists fun _ => .ret _
  | sadd =>
    refine callsWithin_first rfl (fun _ => firstKey?_of_keyAndRest?) fun x => ?_
    refine .bind (callsWithin_callUpdate ?_) fun _ => callsWithin_countedProg _ _
    exact within_writeThrough _ fun old new =>
      (new.getD default).setVal.size - (old.getD default).setVal.size
  | srem | hdel | zrem =>
    refine callsWithin_first rfl (fun _ => firstKey?_of_keyAndRest?) fun x => ?_
    refine .bind (callsWithin_callUpdate ?_) fun _ => callsWithin_countedProg _ _
    exact within_updateTyped _ _ _
  | sismember =>
    refine callsWithin_first rfl (fun _ => firstKey?_of_twoArgs?) fun x => ?_
    exact .bind (callsWithin_callRead (within_readTyped _ _ _)) fun _ => .ret _
  | scard | smembers | hlen | hkeys | hvals | hgetall | zcard =>
    refine callsWithin_first rfl (fun _ => firstKey?_of_keyArg?) fun key => ?_
    exact .bind (callsWithin_callRead (within_readTyped _ _ _)) fun _ => .ret _
  | sinter =>
    refine callsWithin_guarded fun keys hkeys => ?_
    rw [keyArguments, filterMap_of_keyArgs? hkeys]
    exact .bind (callsWithin_callRead (within_keys Database.sinter_congr)) fun _ => .ret _
  | sunion =>
    refine callsWithin_guarded fun keys hkeys => ?_
    rw [keyArguments, filterMap_of_keyArgs? hkeys]
    exact .bind (callsWithin_callRead (within_keys Database.sunion_congr)) fun _ => .ret _
  | sdiff =>
    refine callsWithin_guarded fun keys hkeys => ?_
    rw [keyArguments, filterMap_of_keyArgs? hkeys]
    exact .bind (callsWithin_callRead (within_keys Database.sdiff_congr)) fun _ => .ret _
  | hset =>
    refine callsWithin_first rfl (fun _ => firstKey?_of_pairsKey?) fun key => ?_
    refine .bind (callsWithin_hsetLoopProg _ 0) fun fieldsSet => ?_
    cases fieldsSet with
    | none => exact .ret _
    | some n => exact callsWithin_countedProg _ _
  | hget =>
    refine callsWithin_first rfl (fun _ => firstKey?_of_twoArgs?) fun x => ?_
    refine .bind (callsWithin_callRead (within_readTyped _ _ _)) fun _ => .ite ?_ (.ret _)
    refine .bind callsWithin_keyExists fun found => .ite ?_ (.ret _)
    exact .bind callsWithin_type fun _ => .ret _
  | zadd =>
    refine callsWithin_first rfl (fun _ => firstKey?_of_zaddArgs?) fun x => ?_
    refine .bind (callsWithin_callUpdate ?_) fun _ => callsWithin_countedProg _ _
    exact within_writeThrough _ fun _ _ => !x.2.isEmpty
  | zscore =>
    refine callsWithin_first rfl (fun _ => firstKey?_of_twoArgs?) fun x => ?_
    refine .bind (callsWithin_callRead (within_readTyped _ _ _)) fun _ => .ite ?_ (.ret _)
    refine .bind callsWithin_keyExists fun found => .ite (.ret _) ?_
    refine .bind (callsWithin_callRead (within_readTyped _ _ _)) fun _ => .ite (.ret _) (.ret _)
  | zrank =>
    refine callsWithin_first rfl (fun _ => firstKey?_of_twoArgs?) fun x => ?_
    refine .bind (callsWithin_callRead (within_readTyped _ _ _)) fun _ => .ite (.ret _) (.ret _)
  | expire =>
    refine callsWithin_first rfl (fun _ => firstKey?_of_durationArgs?) fun x => ?_
    refine .bind (callsWithin_callAt fun now => ?_) fun _ => callsWithin_countedProg _ _
    exact within_ifLive false (fun _ => true) fun v => some (v.setExpirySeconds now x.2)
  | pexpire =>
    refine callsWithin_first rfl (fun _ => firstKey?_of_durationArgs?) fun x => ?_
    refine .bind (callsWithin_callAt fun now => ?_) fun _ => callsWithin_countedProg _ _
    exact within_ifLive false (fun _ => true) fun v => some (v.setExpiryMilliseconds now x.2)
  | ttl =>
    refine callsWithin_first rfl (fun _ => firstKey?_of_keyArg?) fun key => ?_
    refine .bind (callsWithin_callAt fun now => ?_) fun _ => .ret _
    exact within_ifLive (-2) (fun v => v.ttlSeconds now) fun _ => none
  | pttl =>
    refine callsWithin_first rfl (fun _ => firstKey?_of_keyArg?) fun key => ?_
    refine .bind (callsWithin_callAt fun now => ?_) fun _ => .ret _
    exact within_ifLive (-2) (fun v => v.ttlMilliseconds now) fun _ => none
  | persist =>
    refine callsWithin_first rfl (fun _ => firstKey?_of_keyArg?) fun key => ?_
    refine .bind (callsWithin_callAt fun _ => ?_) fun _ => callsWithin_countedProg _ _
    exact within_ifLive false (fun _ => true) fun v => some v.persist
  | _ => cases hcmd

/-! ### Commands -/

/-- A keyed command changes nothing of its session but the data. -/
theorem dispatch_keyed (env : Env Λ) (now : ℤ) {cmd : Command} (hcmd : cmd.keyed = true) (args : Args)
    (s : Session S Λ) : (dispatch env now (some cmd) args s).2 =
      s.setData (dispatch env now (some cmd) args s).2.world.data := by
  cases cmd <;> first | rfl | cases hcmd

theorem onData_of_keyed {cmd : Command} (hcmd : cmd.keyed = true) : cmd.onData = true := by
  cases cmd <;> first | rfl | cases hcmd

/-- A keyed command on the direct path is an operation within the keys it names. -/
theorem within_dispatch (env : Env Λ) (now : ℤ) {cmd : Command} (hcmd : cmd.keyed = true)
    (args : Args) (s : Session S Λ) :
    WithinKeys {k | k ∈ keyArguments cmd args} fun d =>
      ((dispatch env now (some cmd) args (s.setData d)).1,
        (dispatch env now (some cmd) args (s.setData d)).2.world.data) := by
  have hrun := (callsWithin_dataProg (S := S) s.world.fileWritable hcmd args).within now
  have heq : (dataProg s.world.fileWritable cmd args).run now = fun d =>
      ((dispatch env now (some cmd) args (s.setData d)).1,
        (dispatch env now (some cmd) args (s.setData d)).2.world.data) := by
    funext d
    exact run_dataProg env now (onData_of_keyed hcmd) args (s.setData d)
  rw [heq] at hrun
  exact hrun

/-! ### Commutation -/

/-- The same system over other data. -/
def System.setData (sys : System S Λ) (d : Data S) : System S Λ :=
  { sys with world := { sys.world with data := d } }

section Steps

variable {sys : System S Λ} {r : Request} {cmd : Command}

theorem processCommand_route {env : Env Λ} {now : ℤ} {command : RespValue} {s : Session S Λ}
    (hcommand : command.command? = some cmd) (hidle : s.self.inTransaction = false) :
    processCommand env now command s = routeAndDispatch env now (some cmd) command.args s := by
  obtain ⟨name, rest, rfl⟩ := exists_name_of_command? hcommand
  replace hcommand : Command.ofName name = some cmd := hcommand
  simp only [processCommand, hcommand, hidle, Bool.false_eq_true, false_and, if_false]
  rfl

/-- A keyed command of an idle client, redirected or not, as an operation on the data. -/
theorem exists_within_step (env : Env Λ) (hcommand : r.command.command? = some cmd)
    (hkeyed : cmd.keyed = true) (hidle : (sys.clients r.client).inTransaction = false) :
    ∃ m : Data S → Bytes × Data S, WithinKeys {k | k ∈ keyArguments cmd r.command.args} m ∧
      ∀ d, (sys.setData d).step env r = ((m d).1, sys.setData (m d).2) := by
  -- the outcome of the session carries over to the system
  have hstep : ∀ d (x : Bytes × Data S),
      processCommand env r.now r.command ((sys.setData d).session r.client) =
        (x.1, ((sys.setData d).session r.client).setData x.2) →
      (sys.setData d).step env r = (x.1, sys.setData x.2) := by
    intro d x hx
    unfold System.step
    rw [hx]
    simp only [System.setData, System.session, Session.setData, Function.update_eq_self]
  cases hroute : redirect env (some cmd) r.command.args with
  | some x =>
    refine ⟨fun d => (movedReply env x.1 x.2, d), .ret _, fun d => hstep d _ ?_⟩
    rw [processCommand_route hcommand hidle, routeAndDispatch, hroute]
    rfl
  | none =>
    refine ⟨_, within_dispatch env r.now hkeyed r.command.args (sys.session r.client),
      fun d => hstep d _ ?_⟩
    rw [processCommand_route hcommand hidle, routeAndDispatch, hroute]
    exact Prod.ext rfl (dispatch_keyed env r.now hkeyed r.command.args _)

end Steps

/-- Two keyed commands at one time, sent outside transactions, that name different keys: in either
order each has the same reply, and the same entries are left. -/
theorem commands_commute (env : Env Λ) (sys : System S Λ) (r₁ r₂ : Request) {cmd₁ cmd₂ : Command}
    (hcommand₁ : r₁.command.command? = some cmd₁) (hcommand₂ : r₂.command.command? = some cmd₂)
    (hkeyed₁ : cmd₁.keyed = true) (hkeyed₂ : cmd₂.keyed = true)
    (hidle₁ : (sys.clients r₁.client).inTransaction = false)
    (hidle₂ : (sys.clients r₂.client).inTransaction = false)
    (hdisjoint : ∀ k ∈ keyArguments cmd₁ r₁.command.args, k ∉ keyArguments cmd₂ r₂.command.args) :
    ((sys.step env r₂).2.step env r₁).1 = (sys.step env r₁).1 ∧
    ((sys.step env r₁).2.step env r₂).1 = (sys.step env r₂).1 ∧
    ∀ k, ((sys.step env r₂).2.step env r₁).2.world.data.find? k =
      ((sys.step env r₁).2.step env r₂).2.world.data.find? k := by
  obtain ⟨m, hm, hstep₁⟩ := exists_within_step env hcommand₁ hkeyed₁ hidle₁
  obtain ⟨n, hn, hstep₂⟩ := exists_within_step env hcommand₂ hkeyed₂ hidle₂
  have hsys : sys = sys.setData sys.world.data := rfl
  rw [hsys, hstep₁, hstep₂, hstep₁, hstep₂]
  exact hm.commute hn hdisjoint sys.world.data

/-- A push to `a` and an intersection of `b` and `c`. -/
theorem commands_commute_push_inter :
    let sys : System NatScore Unit := (System.fresh ∅).run .standalone
      [request 0 ["SADD", "b", "x", "y"], request 0 ["SADD", "c", "y"]]
    let push := request 0 ["LPUSH", "a", "x"]
    let inter := request 1 ["SINTER", "b", "c"]
    ((sys.step .standalone inter).2.step .standalone push).1 = (sys.step .standalone push).1 ∧
      ((sys.step .standalone push).2.step .standalone inter).1 = (sys.step .standalone inter).1 ∧
      ∀ k, ((sys.step .standalone inter).2.step .standalone push).2.world.data.find? k =
        ((sys.step .standalone push).2.step .standalone inter).2.world.data.find? k :=
  have hpush : (request 0 ["LPUSH", "a", "x"]).command.command? = some .lpush := by decide
  have hinter : (request 1 ["SINTER", "b", "c"]).command.command? = some .sinter := by decide
  commands_commute .standalone _ _ _ hpush hinter rfl rfl (by decide) (by decide) (by decide)

end MinimalRedis
