import MinimalRedis.Footprints
import MinimalRedis.Interleaving
import MinimalRedis.Lib.Steps
import MinimalRedis.ZsetIndex

/-!
# Schedules of clients are runs of `Database` calls

Whatever the clients send (transactions and scripts too) and however their threads are scheduled, the
shared data goes through one sequence of `Database` calls, each of them taken as one step.  What every
sequence of calls keeps, the server keeps under load as long as no two calls run at the same time, which
the code leaves to chance: the class has no mutex.

* `stepsIn_commandProg` — every call of every command is a call of the `Database`;
* `scheduled_zsets_agree` — the two indexes of every sorted set agree in every state that the clients
  pass through;
* `scheduled_counter` — while an entry stays, its modification counter is the number of counts.
-/

namespace MinimalRedis

open Lib Config

variable {S : Type} [Score S] {Λ : Type}

/-! ### Programs -/

/-- A step of the data that a `Database` call makes. -/
def IsCall (d d' : Data S) : Prop := ∃ call : Call S, d' = call.apply d

/-- All calls of the program are calls of the `Database`. -/
abbrev CallsProg {α : Type} (p : DataProg S α) : Prop := p.StepsIn IsCall

section Programs

variable {α : Type} {key : Bytes}

theorem calls_guarded {parsed : Option α} {refusal : Bytes} {body : α → DataProg S Bytes}
    (h : ∀ a, CallsProg (body a)) : CallsProg (guarded parsed refusal body) := by
  cases parsed with
  | none => exact .ret _
  | some a => exact h a

theorem calls_callRead (m : Data S → α) : CallsProg (callRead m) := .lift fun _ _ => ⟨.query, rfl⟩

theorem calls_read (m : Data S → α) (f : α → Bytes) :
    CallsProg ((callRead m).bind fun a => .ret (f a)) := .bind (calls_callRead m) fun a => .ret (f a)

theorem calls_callAt {m : ℤ → Data S → α × Data S} (call : ℤ → Call S)
    (h : ∀ now d, (m now d).2 = (call now).apply d) : CallsProg (callAt m) :=
  .lift fun now d => ⟨call now, h now d⟩

theorem calls_callUpdate {m : Data S → α × Data S} (call : Call S) (h : ∀ d, (m d).2 = call.apply d) :
    CallsProg (callUpdate m) := .lift fun _ d => ⟨call, h d⟩

theorem calls_callWrite {m : Data S → Data S} (call : Call S) (h : ∀ d, m d = call.apply d) :
    CallsProg (callWrite m) := .lift fun _ d => ⟨call, h d⟩

theorem calls_keyExists : CallsProg (S := S) (callAt fun now => Database.keyExists now key) :=
  calls_callAt (.keyExists · key) fun _ _ => rfl

theorem calls_type : CallsProg (S := S) (callAt fun now => Database.type now key) :=
  calls_callAt (.type · key) fun _ _ => rfl

theorem calls_increment : CallsProg (S := S) (callWrite (Database.incrementModCount key)) :=
  calls_callWrite (.incrementModCount key) fun _ => rfl

theorem calls_countedProg (count : Bool) (reply : Bytes) :
    CallsProg (S := S) (countedProg key count reply) := by
  cases count with
  | false => exact .ret _
  | true => exact .bind calls_increment fun _ => .ret _

/-- An update that is counted. -/
theorem calls_counted {m : Data S → α × Data S} {count : α → Bool} {reply : α → Bytes} (call : Call S)
    (h : ∀ d, (m d).2 = call.apply d) :
    CallsProg ((callUpdate m).bind fun a => countedProg key (count a) (reply a)) :=
  .bind (calls_callUpdate call h) fun _ => calls_countedProg _ _

/-- The same with a look at the clock. -/
theorem calls_countedAt {m : ℤ → Data S → α × Data S} {count : α → Bool} {reply : α → Bytes}
    (call : ℤ → Call S) (h : ∀ now d, (m now d).2 = (call now).apply d) :
    CallsProg ((callAt m).bind fun a => countedProg key (count a) (reply a)) :=
  .bind (calls_callAt call h) fun _ => calls_countedProg _ _

theorem calls_popProg (value : Bytes) : CallsProg (S := S) (popProg key value) := by
  have hcounted : CallsProg (S := S)
      ((callWrite (Database.incrementModCount key)).bind fun _ => .ret (bulkReply value)) :=
    .bind calls_increment fun _ => .ret _
  refine .ite (.bind calls_keyExists fun found => ?_) hcounted
  exact .ite (.ret _) hcounted

theorem calls_hsetLoopProg (vs : List RespValue) (fieldsSet : ℕ) :
    CallsProg (S := S) (hsetLoopProg key vs fieldsSet) := by
  fun_induction hsetLoopProg (S := S) key vs fieldsSet with
  | case1 field value rest fieldsSet f v hv hf ih =>
    exact .bind (calls_callWrite (.hset key f v) fun _ => rfl) fun _ => ih
  | case2 => exact .ret _
  | case3 => exact .ret _

end Programs

theorem stepsIn_dataProg (writable : Bool) (cmd : Command) (args : Args) :
    CallsProg (S := S) (dataProg writable cmd args) := by
  cases cmd with
  | set =>
    refine calls_guarded fun x => .bind (calls_callWrite (.set x.1 x.2) fun _ => rfl) fun _ => ?_
    exact .bind calls_increment fun _ => .ret _
  | get =>
    refine calls_guarded fun key => .bind calls_keyExists fun found => .ite (.ret _) ?_
    refine .bind calls_type fun type => .ite (.ret _) ?_
    exact .bind (calls_callAt (.get · key) fun _ _ => rfl) fun _ => .ret _
  | del =>
    refine calls_guarded fun key => .bind calls_keyExists fun found => ?_
    have hdel : CallsProg (S := S) ((callUpdate (Database.del key)).bind fun deleted =>
        .ret (boolReply deleted)) :=
      .bind (calls_callUpdate (.del key) fun _ => rfl) fun _ => .ret _
    exact .ite (.bind calls_increment fun _ => hdel) hdel
  | existsKey => exact calls_guarded fun key => .bind calls_keyExists fun _ => .ret _
  | type =>
    refine calls_guarded fun key => .bind calls_keyExists fun found => .ite (.ret _) ?_
    exact .bind calls_type fun _ => .ret _
  | lpush => exact calls_guarded fun x => calls_counted (.lpush x.1 x.2) fun _ => rfl
  | rpush => exact calls_guarded fun x => calls_counted (.rpush x.1 x.2) fun _ => rfl
  | lpop =>
    refine calls_guarded fun key => .bind (calls_callUpdate (.lpop key) fun _ => rfl) fun _ => ?_
    exact calls_popProg _
  | rpop =>
    refine calls_guarded fun key => .bind (calls_callUpdate (.rpop key) fun _ => rfl) fun _ => ?_
    exact calls_popProg _
  | llen =>
    exact calls_guarded fun key => .bind (calls_callAt (.llen · key) fun _ _ => rfl) fun _ => .ret _
  | lindex =>
    refine calls_guarded fun x => .bind (calls_callRead _) fun value => .ite ?_ (.ret _)
    exact .bind calls_keyExists fun _ => .ret _
  | sadd => exact calls_guarded fun x => calls_counted (.sadd x.1 x.2) fun _ => rfl
  | srem => exact calls_guarded fun x => calls_counted (.srem x.1 x.2) fun _ => rfl
  | hset =>
    refine calls_guarded fun key => .bind (calls_hsetLoopProg _ 0) fun fieldsSet => ?_
    cases fieldsSet with
    | none => exact .ret _
    | some fieldsSet => exact calls_countedProg _ _
  | hget =>
    refine calls_guarded fun x => .bind (calls_callRead _) fun value => .ite ?_ (.ret _)
    refine .bind calls_keyExists fun found => .ite ?_ (.ret _)
    exact .bind calls_type fun _ => .ret _
  | hdel => exact calls_guarded fun x => calls_counted (.hdel x.1 x.2) fun _ => rfl
  | zadd => exact calls_guarded fun x => calls_counted (.zadd x.1 x.2) fun _ => rfl
  | zrem => exact calls_guarded fun x => calls_counted (.zrem x.1 x.2) fun _ => rfl
  | zscore =>
    refine calls_guarded fun x => .bind (calls_callRead _) fun score => .ite ?_ (.ret _)
    refine .bind calls_keyExists fun found => .ite (.ret _) ?_
    exact .bind (calls_callRead _) fun size => .ite (.ret _) (.ret _)
  | zrank =>
    exact calls_guarded fun x => .bind (calls_callRead _) fun rank => .ite (.ret _) (.ret _)
  | expire => exact calls_guarded fun x => calls_countedAt (.expire · x.1 x.2) fun _ _ => rfl
  | pexpire => exact calls_guarded fun x => calls_countedAt (.pexpire · x.1 x.2) fun _ _ => rfl
  | ttl =>
    exact calls_guarded fun key => .bind (calls_callAt (.ttl · key) fun _ _ => rfl) fun _ => .ret _
  | pttl =>
    exact calls_guarded fun key => .bind (calls_callAt (.pttl · key) fun _ _ => rfl) fun _ => .ret _
  | persist => exact calls_guarded fun key => calls_countedAt (.persist · key) fun _ _ => rfl
  | keys | save | lrange | sismember | scard | smembers | sinter | sunion | sdiff | hlen | hkeys | hvals
  | hgetall | zcard | zrange | zrevrange => exact calls_guarded fun _ => calls_read _ _
  | _ => exact .ret _

/-! ### Transactions and scripts -/

theorem stepsIn_execLoopProg (writable : Bool) (queue : List TransactionCommand) :
    CallsProg (S := S) (execLoopProg writable queue) := by
  induction queue with
  | nil => exact .ret _
  | cons tx queue ih =>
    have hexecute : CallsProg (S := S) (executeProg writable tx) := by
      unfold executeProg
      split
      · exact stepsIn_dataProg _ _ _
      · exact .ret _
    exact .bind hexecute fun _ => .bind ih fun _ => .ret _

theorem stepsIn_checkProg (watched : List (Bytes × UInt64)) :
    CallsProg (S := S) (checkProg watched) := by
  induction watched with
  | nil => exact .ret _
  | cons e watched ih => exact .bind (calls_callRead _) fun count => .ite ih (.ret _)

theorem stepsIn_watchLoopProg (vs : List RespValue) (watched : UMap Bytes UInt64) :
    CallsProg (S := S) (watchLoopProg vs watched) := by
  induction vs generalizing watched with
  | nil => exact .ret _
  | cons v vs ih =>
    rw [watchLoopProg]
    cases v.bulk? with
    | none => exact .ret _
    | some key => exact .bind (calls_callRead _) fun _ => ih _

theorem stepsIn_redisPcallProg (args : List LuaValue) : CallsProg (S := S) (redisPcallProg args) := by
  unfold redisPcallProg
  split
  · exact .ret _
  · split
    · exact .ret _
    · split
      · rename_i key _ _ _
        split
        · exact .ret _
        · rename_i k _
          exact .bind (calls_callAt (.get · k) fun _ _ => rfl) fun _ => .ret _
      · split
        · rename_i k v _ _
          exact .bind (calls_callWrite (.set k v) fun _ => rfl) fun _ => .ret _
        · exact .ret _
      · exact .ret _

theorem stepsIn_runLuaProg (r : LuaRun Λ) : CallsProg (S := S) (runLuaProg r) := by
  induction r with
  | done state result => exact .ret _
  | raised state err => exact .ret _
  | call args k ih =>
    rw [runLuaProg]
    refine .bind (stepsIn_redisPcallProg args) fun x => ?_
    cases x with
    | none => exact .ret _
    | some result => exact ih result
  | log arg k ih =>
    rw [runLuaProg]
    cases arg.toString? with
    | none => exact .ret _
    | some _ => exact ih

theorem stepsIn_evalProg (vm : LuaVM Λ) (script : Bytes) (keys args : List Bytes)
    (e : LuaScriptingEngine Λ) : CallsProg (S := S) (evalProg vm script keys args e) := by
  unfold evalProg
  refine .ite (.ret _) ?_
  split
  · exact .ret _
  · refine .bind (stepsIn_runLuaProg _) fun x => ?_
    split <;> exact .ret _

theorem stepsIn_evalshaProg (vm : LuaVM Λ) (sha1 : Bytes) (keys args : List Bytes)
    (e : LuaScriptingEngine Λ) : CallsProg (S := S) (evalshaProg vm sha1 keys args e) := by
  unfold evalshaProg
  split
  · exact .ret _
  · exact stepsIn_evalProg _ _ _ _ _

theorem stepsIn_scriptProg {parsed : Option (Bytes × List Bytes × List Bytes)} {refusal : Bytes}
    {body : Bytes → List Bytes → List Bytes → LuaScriptingEngine Λ →
      DataProg S (Option (Bytes × LuaScriptingEngine Λ))} {p : Processor Λ}
    (h : ∀ script keys args e, CallsProg (body script keys args e)) :
    CallsProg (scriptProg parsed refusal body p) := by
  cases parsed with
  | none => exact .ret _
  | some x =>
    refine .bind (h _ _ _ _) fun y => ?_
    cases y <;> exact .ret _

theorem stepsIn_dispatchProg (env : Env Λ) (writable : Bool) (cmd : Option Command) (args : Args)
    (p : Processor Λ) : CallsProg (S := S) (dispatchProg env writable cmd args p) := by
  unfold dispatchProg
  split
  · refine .bind ?_ fun _ => .ret _
    refine .ite (.ret _) (.ite (.ret _) (.bind (stepsIn_checkProg _) fun holds => ?_))
    exact .ite (.bind (stepsIn_execLoopProg _ _) fun _ => .ret _) (.ret _)
  · refine .bind ?_ fun _ => .ret _
    exact .ite (.ret _) (.ite (.ret _) (.bind (stepsIn_watchLoopProg _ _) fun _ => .ret _))
  · exact stepsIn_scriptProg fun _ _ _ _ => stepsIn_evalProg _ _ _ _ _
  · exact stepsIn_scriptProg fun _ _ _ _ => stepsIn_evalshaProg _ _ _ _ _
  · exact .ite (.bind (stepsIn_dataProg _ _ _) fun _ => .ret _) (.ret _)
  · exact .ret _

/-- Every call of every command is a call of the `Database`. -/
theorem stepsIn_commandProg (env : Env Λ) (writable : Bool) (command : RespValue) (p : Processor Λ) :
    CallsProg (S := S) (commandProg env writable command p) := by
  unfold commandProg
  split
  · refine .ite (.ret _) ?_
    split
    · exact .ret _
    · exact stepsIn_dispatchProg _ _ _ _ _
  · exact .ret _
  · exact .ret _

/-! ### Runs -/

section Runs

variable {env : Env Λ} {writable : Bool} {c c' : Clients S Λ} {schedule : List (ℕ × ℤ)}
  {log : List (Entry ℕ (Data S) RespValue Answer)}

/-- Under every schedule the clients perform one sequence of calls. -/
theorem exists_calls (hidle : ∀ i, (c.threads i).running = none)
    (hrun : c.run? (commandProg env writable) schedule = some (log, c')) :
    ∃ calls : List (Call S), Performs Call.apply c.shared (log.filter Entry.isCall) calls c'.shared :=
  exists_operations Call.apply (stepsIn_commandProg env writable) (runningIn_of_idle hidle) hrun

/-- **Sorted sets under load.**  From a store that any operations have built, whatever the clients send
and however they are scheduled, the calls they perform are one sequence: in every sorted set the two
indexes agree and each score is the last one that a call of the whole history gave. -/
theorem scheduled_zsets_agree (ops : List (Operation S)) (hstart : c.shared = Operation.run ops ∅)
    (hidle : ∀ i, (c.threads i).running = none)
    (hrun : c.run? (commandProg env writable) schedule = some (log, c')) :
    ∃ calls : List (Call S),
      Performs Call.apply c.shared (log.filter Entry.isCall) calls c'.shared ∧
        ∀ key v, c'.shared.find? key = some v →
          ZsetLaw (LastGiven (ops.flatMap Operation.calls ++ calls) key) v := by
  obtain ⟨calls, hcalls⟩ := exists_calls hidle hrun
  refine ⟨calls, hcalls, fun key v hv => ?_⟩
  have hops : (ops ++ calls.map Operation.call).flatMap Operation.calls =
      ops.flatMap Operation.calls ++ calls := by
    rw [List.flatMap_append, List.flatMap_map]
    exact congrArg _ (List.flatMap_singleton' calls)
  have hhistory : c'.shared = Operation.run (ops ++ calls.map Operation.call) ∅ := by
    rw [Operation.run_eq_run_calls, hops, Call.run_append, ← Operation.run_eq_run_calls, ← hstart]
    exact hcalls.eq_foldl
  rw [← hops]
  exact zset_indexes_agree_run _ key v (hhistory ▸ hv)

/-- Two clients give one member its score, call by call in turn. -/
def scoringClients : Clients NatScore Unit where
  shared := ∅
  threads i :=
    { own := { engine := { state := () } }
      input := if i < 2 then [.array [.bulkString (str "ZADD"), .bulkString [107],
        .bulkString (natBytes (i + 1)), .bulkString [109]]] else [] }

theorem scheduled_zsets_agree_one_member :
    ∃ log c', scoringClients.run? (commandProg Env.standalone true)
        [(0, 0), (1, 0), (0, 0), (1, 0), (1, 0), (0, 0), (1, 0), (0, 0)] = some (log, c') ∧
      ∃ calls : List (Call NatScore),
        Performs Call.apply scoringClients.shared (log.filter Entry.isCall) calls c'.shared ∧
          ∀ key v, c'.shared.find? key = some v →
            ZsetLaw
              (LastGiven (([] : List (Operation NatScore)).flatMap Operation.calls ++ calls) key) v := by
  obtain ⟨x, hx⟩ := Option.isSome_iff_exists.mp (show (scoringClients.run?
    (commandProg Env.standalone true)
    [(0, 0), (1, 0), (0, 0), (1, 0), (1, 0), (0, 0), (1, 0), (0, 0)]).isSome = true from rfl)
  exact ⟨x.1, x.2, hx, scheduled_zsets_agree [] rfl (fun _ => rfl) hx⟩

/-! ### Counters -/

/-- The call counts a change of `key`. -/
def Call.counts (key : Bytes) : Call S → Bool
  | .incrementModCount key' => decide (key' = key)
  | _ => false

def SameCount (v v' : RedisValue S) : Prop := v'.modCount = v.modCount

/-- Nothing else touches the counter of an entry. -/
theorem Call.sameCount_apply {call : Call S} (h : ∀ key, call ≠ .incrementModCount key) (d : Data S) :
    EntryFrame SameCount d (call.apply d) := by
  have hrefl : ∀ v : RedisValue S, SameCount v v := fun _ => rfl
  have hpure : EntryFrame SameCount d d := EntryFrame.refl hrefl d
  cases call with
  | incrementModCount key => exact absurd rfl (h key)
  | set key value => exact EntryFrame.set hrefl rfl
  | lpush key values => exact EntryFrame.set hrefl rfl
  | rpush key values => exact EntryFrame.set hrefl rfl
  | sadd key members => exact EntryFrame.set hrefl rfl
  | hset key field value => exact EntryFrame.set hrefl rfl
  | zadd key members => exact EntryFrame.set hrefl (modCount_foldl_zaddOne members _)
  | lpop key => exact EntryFrame.updateTyped hrefl (fun _ => by rfl) key d
  | rpop key => exact EntryFrame.updateTyped hrefl (fun _ => by rfl) key d
  | srem key members => exact EntryFrame.updateTyped hrefl (fun _ => by rfl) key d
  | hdel key fields => exact EntryFrame.updateTyped hrefl (fun _ => by rfl) key d
  | zrem key members =>
    exact EntryFrame.updateTyped hrefl (fun v => modCount_foldl_zremOne members (false, v)) key d
  | get now key => exact EntryFrame.ifTypedLive hrefl now _ _ _ key d
  | llen now key => exact EntryFrame.ifTypedLive hrefl now _ _ _ key d
  | del key => exact EntryFrame.erase hrefl key d
  | keyExists now key => exact EntryFrame.ifLive hrefl fun _ _ => hpure
  | type now key => exact EntryFrame.ifLive hrefl fun _ _ => hpure
  | ttl now key => exact EntryFrame.ifLive hrefl fun _ _ => hpure
  | pttl now key => exact EntryFrame.ifLive hrefl fun _ _ => hpure
  | expire now key seconds => exact EntryFrame.ifLive_set hrefl fun _ => rfl
  | pexpire now key ms => exact EntryFrame.ifLive_set hrefl fun _ => rfl
  | persist now key =>
    refine EntryFrame.ifLive_set hrefl fun v => ?_
    unfold RedisValue.persist
    rfl
  | setExpiryTime key expiry =>
    show EntryFrame SameCount d (Database.setExpiryTime key expiry d)
    unfold Database.setExpiryTime
    split
    · exact hpure
    · rename_i v hv
      exact EntryFrame.set hrefl (by rw [hv]; rfl)
  | query => exact hpure

theorem getModCount_eq (key : Bytes) (d : Data S) :
    Database.getModCount key d = ((d.find? key).getD default).modCount := by
  unfold Database.getModCount
  cases d.find? key <;> rfl

/-- The counter of an entry that is not taken away. -/
theorem getModCount_of_frame {key : Bytes} {d d' : Data S}
    (hframe : EntryFrame SameCount d d')
    (hkept : d.find? key ≠ none → d'.find? key ≠ none) :
    Database.getModCount key d' = Database.getModCount key d := by
  rw [getModCount_eq, getModCount_eq]
  cases hv' : d'.find? key with
  | none => rw [not_not.mp fun hv => hkept hv hv']
  | some v' => exact hframe key v' hv'

theorem Call.getModCount_apply {key : Bytes} (call : Call S) {d : Data S}
    (hkept : d.find? key ≠ none → (call.apply d).find? key ≠ none) :
    Database.getModCount key (call.apply d) =
      Database.getModCount key d + UInt64.ofNat (if call.counts key = true then 1 else 0) := by
  have hplain : (∀ key, call ≠ .incrementModCount key) →
      Database.getModCount key (call.apply d) =
        Database.getModCount key d + UInt64.ofNat (if call.counts key = true then 1 else 0) := by
    intro h
    have hcounts : call.counts key = false := by
      cases call with
      | incrementModCount key' => exact absurd rfl (h key')
      | _ => rfl
    rw [getModCount_of_frame (Call.sameCount_apply h d) hkept, hcounts]
    exact (UInt64.add_zero _).symm
  cases call with
  | incrementModCount key' =>
    by_cases hkey : key' = key
    · rw [Call.counts, decide_eq_true hkey, if_pos rfl, hkey]
      show Database.getModCount key (Database.incrementModCount key d) = _
      unfold Database.incrementModCount
      rw [getModCount_eq key d]
      cases hv : d.find? key with
      | none => exact getModCount_of_find? (UMap.find?_set_self _ _ _)
      | some v => exact getModCount_of_find? (UMap.find?_set_self _ _ _)
    · rw [Call.counts, decide_eq_false hkey, if_neg Bool.false_ne_true]
      show Database.getModCount key (Database.incrementModCount key' d) = _
      rw [getModCount_congr (OnlyAt.incrementModCount key' d key (Ne.symm hkey))]
      exact (UInt64.add_zero _).symm
  | _ => exact hplain nofun

/-- The step changes the counter of `key`. -/
def Recounts (key : Bytes) (e : Entry ℕ (Data S) RespValue Answer) : Bool :=
  decide (Database.getModCount key e.after ≠ Database.getModCount key e.before)

/-- A call that takes no entry of `key` away recounts it by counting. -/
theorem recounts_eq_counts {key : Bytes} {e : Entry ℕ (Data S) RespValue Answer} {call : Call S}
    (hafter : e.after = call.apply e.before) (hkept : e.before.find? key ≠ none → e.after.find? key ≠ none) :
    Recounts key e = call.counts key := by
  rw [hafter] at hkept
  rw [Recounts, hafter, call.getModCount_apply hkept]
  cases call.counts key with
  | false => exact decide_eq_false (not_not.mpr (UInt64.add_zero _))
  | true =>
    refine decide_eq_true fun heq => ?_
    cases UInt64.add_eq_left.mp heq

theorem counter_of_performs {key : Bytes} {d d' : Data S} {calls : List (Call S)}
    (h : Performs Call.apply d log calls d')
    (hkept : ∀ e ∈ log, e.before.find? key ≠ none → e.after.find? key ≠ none) :
    (∀ e ∈ log, Recounts key e = true → e.after = Database.incrementModCount key e.before) ∧
      Database.getModCount key d' =
        Database.getModCount key d + UInt64.ofNat (log.countP (Recounts key)) := by
  induction h with
  | nil s => exact ⟨nofun, (UInt64.add_zero _).symm⟩
  | @cons s s' e log call calls hbefore hafter _ ih =>
    obtain ⟨hcounts, hsum⟩ := ih fun e he => hkept e (List.mem_cons_of_mem _ he)
    have hfirst := hkept e List.mem_cons_self
    have hcall : e.after = call.apply e.before := by rw [hafter, hbefore]
    have hrecounts := recounts_eq_counts hcall hfirst
    refine ⟨List.forall_mem_cons.mpr ⟨fun hcount => ?_, hcounts⟩, ?_⟩
    · rw [hrecounts] at hcount
      cases call with
      | incrementModCount key' =>
        rw [hcall, ← of_decide_eq_true hcount]
        rfl
      | _ => cases hcount
    · rw [hbefore, hafter] at hfirst
      rw [hsum, call.getModCount_apply hfirst, List.countP_cons, hrecounts, Nat.add_comm,
        UInt64.ofNat_add, UInt64.add_assoc]

/-- **Counters under load.**  While no step takes the entry of `key` away, a step that changes its
counter counts one, and the counter goes up by the number of these steps, modulo `2 ^ 64`. -/
theorem scheduled_counter (hidle : ∀ i, (c.threads i).running = none)
    (hrun : c.run? (commandProg env writable) schedule = some (log, c')) (key : Bytes)
    (hkept : ∀ e ∈ log.filter Entry.isCall, e.before.find? key ≠ none → e.after.find? key ≠ none) :
    (∀ e ∈ log.filter Entry.isCall, Recounts key e = true →
        e.after = Database.incrementModCount key e.before) ∧
      Database.getModCount key c'.shared = Database.getModCount key c.shared +
        UInt64.ofNat ((log.filter Entry.isCall).countP (Recounts key)) := by
  obtain ⟨calls, hcalls⟩ := exists_calls hidle hrun
  exact counter_of_performs hcalls hkept

/-- Both clients count their `ZADD`. -/
theorem scheduled_counter_two_counts :
    ∃ log c', scoringClients.run? (commandProg Env.standalone true)
        [(0, 0), (1, 0), (0, 0), (1, 0), (1, 0), (0, 0), (1, 0), (0, 0)] = some (log, c') ∧
      (log.filter Entry.isCall).countP (Recounts [107]) = 2 ∧
      (∀ e ∈ log.filter Entry.isCall, Recounts [107] e = true →
        e.after = Database.incrementModCount [107] e.before) ∧
      Database.getModCount [107] c'.shared = Database.getModCount [107] scoringClients.shared +
        UInt64.ofNat ((log.filter Entry.isCall).countP (Recounts [107])) := by
  obtain ⟨x, hx, hlog⟩ := (Option.any_eq_true _ _).mp (show ((scoringClients.run?
    (commandProg Env.standalone true)
    [(0, 0), (1, 0), (0, 0), (1, 0), (1, 0), (0, 0), (1, 0), (0, 0)]).any fun x =>
      (x.1.filter Entry.isCall).countP (Recounts [107]) == 2 &&
        (x.1.filter Entry.isCall).all fun e =>
          (e.before.find? [107]).isNone || (e.after.find? [107]).isSome) = true from rfl)
  obtain ⟨hcount, hall⟩ := Bool.and_eq_true_iff.mp hlog
  refine ⟨x.1, x.2, hx, beq_iff_eq.mp hcount,
    scheduled_counter (fun _ => rfl) hx [107] fun e he hbefore => ?_⟩
  rcases Bool.or_eq_true_iff.mp (List.all_eq_true.mp hall e he) with hnone | hsome
  · exact absurd (Option.isNone_iff_eq_none.mp hnone) hbefore
  · exact Option.isSome_iff_ne_none.mp hsome

end Runs

end MinimalRedis
