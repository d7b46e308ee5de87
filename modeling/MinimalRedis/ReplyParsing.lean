import MinimalRedis.ReplyFraming
import MinimalRedis.Watch

/-!
# Every reply is one value

* `served_dispatch` — the commands that have a closure: framed reply, bounded growth;
* `framed_execLoop` — the replies `EXEC` concatenates, by induction over the queue;
* `framed_dispatch`, `framed_processCommand` — all commands but the four whose replies are not one
  value by design;
* `Returns` — what the store's method returns for a command that answers an array;
* `parse_reply` — unless it divides by a slot count of zero, `process_command` returns, and the parser
  reads its reply as one value and consumes all of it; arrays decode to what the store returned, and
  `EXEC` to one element for each queued command;
* `no_reply_without_slots` — what the division does to a `SET`.
-/

namespace MinimalRedis

open Lib Session

variable {S : Type} [Score S] {Λ : Type}

/-! ### Transactions -/

theorem framed_unknown : Framed (errReply "ERR Unknown command") := framed_errReply (by decide)

theorem framed_handleSave (args : Args) (s : Session S Λ) : Framed (handleSave args s).1 := by
  unfold handleSave
  split
  · exact framed_errReply (by decide)
  · split
    · exact framed_okReply
    · exact framed_errReply (by decide)

/-- The commands that have a closure. -/
theorem served_dispatch (env : Env Λ) (now : ℤ) {cmd : Option Command} {args : Args}
    {s : Session S Λ}
    (hcmd : ∀ c, cmd = some c → c.lacksClosure = false ∧ c.isControl = false)
    (hcap : Database.elements s.world.data + args.length ≤ capacity) :
    Served s.world.data args.length
      ((dispatch env now cmd args s).1, (dispatch env now cmd args s).2.world.data) := by
  cases cmd with
  | none => exact served_read framed_unknown
  | some c =>
    obtain ⟨hlacks, hcontrol⟩ := hcmd c rfl
    cases c with
    | set => exact served_handleSet
    | get => exact served_handleGet now
    | del => exact served_handleDel now
    | existsKey => exact served_handleExists now
    | keys => exact served_handleKeys hcap
    | save =>
      have hdata : (handleSave args s).2.world.data = s.world.data := by
        unfold handleSave
        split
        · rfl
        · split <;> rfl
      show Served _ _ ((handleSave args s).1, (handleSave args s).2.world.data)
      rw [hdata]
      exact served_read (framed_handleSave args s)
    | type => exact served_handleType now
    | lpush => exact served_handleLpush hcap
    | rpush => exact served_handleRpush hcap
    | lpop => exact served_handleLpop now
    | rpop => exact served_handleRpop now
    | llen => exact served_handleLlen now hcap
    | lrange => exact served_handleLrange hcap
    | lindex => exact served_handleLindex now
    | sadd => exact served_handleSadd hcap
    | srem => exact served_handleSrem hcap
    | sismember => exact served_handleSismember
    | scard => exact served_handleScard hcap
    | smembers => exact served_handleSmembers hcap
    | sinter => exact served_handleSinter hcap
    | sunion => exact served_handleSunion hcap
    | sdiff => exact served_handleSdiff hcap
    | hset => exact served_handleHset hcap
    | hget => exact served_handleHget now
    | hdel => exact served_handleHdel
    | hlen => exact served_handleHlen hcap
    | hkeys => exact served_handleHkeys hcap
    | hvals => exact served_handleHvals hcap
    | hgetall => exact served_handleHgetall hcap
    | zadd => exact served_handleZadd
    | zrem => exact served_handleZrem
    | zcard => exact served_handleZcard hcap
    | zrange => exact served_handleZrange hcap
    | zrevrange => exact served_handleZrevrange hcap
    | zscore => exact served_handleZscore now
    | zrank => exact served_handleZrank hcap
    | multi | exec | discard | watch | unwatch => cases hcontrol
    | _ => cases hlacks

/-- The arguments of a queue, with a place for each command. -/
def queueWeight (queue : List TransactionCommand) : ℕ :=
  (queue.map fun tx => tx.args.length + 1).sum

theorem length_le_queueWeight (queue : List TransactionCommand) : queue.length ≤ queueWeight queue := by
  unfold queueWeight
  induction queue with
  | nil => exact Nat.le_refl _
  | cons tx queue ih =>
    rw [List.map_cons, List.sum_cons, List.length_cons]
    omega

/-- Every reply of the loop is framed: the store a command meets has grown by the arguments before. -/
theorem framed_execLoop (now : ℤ) {queue : List TransactionCommand} {s : Session S Λ}
    (env : Env Λ) (hcap : Database.elements s.world.data + queueWeight queue ≤ capacity) :
    ∀ r ∈ (execLoop now queue s).1, Framed r := by
  induction queue generalizing s with
  | nil =>
    intro r hr
    exact absurd hr List.not_mem_nil
  | cons tx queue ih =>
    have hweight : queueWeight (tx :: queue) = tx.args.length + 1 + queueWeight queue := rfl
    have hclosure : ∀ c, queuedCommand tx = some c → c.lacksClosure = false ∧ c.isControl = false := by
      intro c hc
      have hkeep := (Option.filter_eq_some_iff.mp hc).2
      simpa using hkeep
    have hserved := @served_dispatch S _ Λ env now (queuedCommand tx) tx.args s hclosure (by omega)
    rw [← executeFunc_eq_dispatch env now tx s] at hserved
    have hgrows := hserved.grows
    intro r hr
    rcases List.mem_cons.mp hr with rfl | hr
    · exact hserved.framed
    · exact ih (by simp only at hgrows; omega) r hr

theorem framed_handleMulti (args : Args) (s : Session S Λ) : Framed (handleMulti args s).1 := by
  unfold handleMulti
  split
  · exact framed_errReply (by decide)
  · split
    · exact framed_errReply (by decide)
    · exact framed_okReply

theorem framed_handleDiscard (args : Args) (s : Session S Λ) : Framed (handleDiscard args s).1 := by
  unfold handleDiscard
  split
  · exact framed_errReply (by decide)
  · split
    · exact framed_errReply (by decide)
    · exact framed_okReply

theorem framed_handleWatch (args : Args) (s : Session S Λ) : Framed (handleWatch args s).1 := by
  unfold handleWatch
  split
  · exact framed_errReply (by decide)
  · split
    · exact framed_errReply (by decide)
    · show Framed (if _ then okReply else _)
      split
      · exact framed_okReply
      · exact framed_errReply (by decide)

theorem framed_handleUnwatch (args : Args) (s : Session S Λ) : Framed (handleUnwatch args s).1 := by
  unfold handleUnwatch
  split
  · exact framed_errReply (by decide)
  · exact framed_okReply

/-- One element for each queued command. -/
theorem framed_handleExec (env : Env Λ) (now : ℤ) {args : Args} {s : Session S Λ}
    (hcap : Database.elements s.world.data + queueWeight s.self.transactionQueue ≤ capacity)
    (hargs : args.length = 1) (hopen : s.self.inTransaction = true)
    (hholds : watchesHold s.self.watchedKeys s.world.data = true) :
    ∃ elems, elems.length = s.self.transactionQueue.length ∧
      Wire (.array elems) (handleExec now args s).1 ∧
      (RespValue.array elems).widest ≤ RespParser.vectorMaxSize := by
  have hlength := length_execLoop now s.self.transactionQueue s
  have hweight := length_le_queueWeight s.self.transactionQueue
  have hcount : (execLoop now s.self.transactionQueue s).1.length ≤ RespParser.vectorMaxSize := by
    unfold capacity at hcap
    unfold RespParser.vectorMaxSize
    omega
  obtain ⟨elems, helems, hwire, hwide⟩ := framed_execReply (framed_execLoop now env hcap) hcount
  refine ⟨elems, helems.trans hlength, ?_, hwide⟩
  simpa [handleExec, hargs, hopen, hholds] using hwire

theorem framed_handleExec_any (env : Env Λ) (now : ℤ) (args : Args) {s : Session S Λ}
    (hcap : Database.elements s.world.data + queueWeight s.self.transactionQueue ≤ capacity) :
    Framed (handleExec now args s).1 := by
  by_cases hargs : args.length = 1
  · by_cases hopen : s.self.inTransaction = true
    · by_cases hholds : watchesHold s.self.watchedKeys s.world.data = true
      · obtain ⟨elems, -, hwire, hwide⟩ := framed_handleExec env now hcap hargs hopen hholds
        exact ⟨.array elems, hwire, hwide⟩
      · have habort : (handleExec now args s).1 = execAbortReply := by
          simp [handleExec, hargs, hopen, hholds]
        rw [habort]
        exact framed_errReply (by decide)
    · have hclosed : (handleExec now args s).1 = errReply "ERR EXEC without MULTI" := by
        simp [handleExec, hargs, hopen]
      rw [hclosed]
      exact framed_errReply (by decide)
  · have harity : (handleExec now args s).1 = errReply "ERR EXEC requires no arguments" := by
      simp [handleExec, hargs]
    rw [harity]
    exact framed_errReply (by decide)

/-! ### Expiration, messages and scripts -/

theorem framed_refused {d : Data S} {msgs : List String} {h : Data S → Bytes × Data S}
    (href : Refuses msgs h) (hmsgs : ∀ msg ∈ msgs, OneLine (str msg)) : Framed (h d).1 :=
  (@served_refused S _ d 0 msgs h href hmsgs).framed

theorem framed_withKey {arity notBulk : String} {run : Bytes → Data S → Bytes × Data S}
    {args : Args} {d : Data S} (hmsgs : ∀ msg ∈ [arity, notBulk], OneLine (str msg))
    (hrun : ∀ key, Framed (run key d).1) : Framed (withKey arity notBulk run args d).1 := by
  rcases withKey_cases arity notBulk run args with href | ⟨name, key, -, h⟩
  · exact framed_refused href hmsgs
  · rw [h]
    exact hrun key

theorem framed_withTwo {arity notBulk : String} {run : Bytes → Bytes → Data S → Bytes × Data S}
    {args : Args} {d : Data S} (hmsgs : ∀ msg ∈ [arity, notBulk], OneLine (str msg))
    (hrun : ∀ key arg, Framed (run key arg d).1) : Framed (withTwo arity notBulk run args d).1 := by
  rcases withTwo_cases arity notBulk run args with href | ⟨name, key, arg, -, h⟩
  · exact framed_refused href hmsgs
  · rw [h]
    exact hrun key arg

theorem framed_withDuration {arity notBulk notInt : String}
    {run : Bytes → ℤ → Data S → Bytes × Data S} {args : Args} {d : Data S}
    (hmsgs : ∀ msg ∈ [arity, notBulk, notInt], OneLine (str msg))
    (hrun : ∀ key n, Framed (run key n d).1) :
    Framed (withDuration arity notBulk notInt run args d).1 := by
  refine framed_withTwo (fun msg hmsg => hmsgs msg (List.mem_append_left [notInt] hmsg))
    fun key arg => ?_
  split
  · exact framed_errReply (hmsgs notInt (by simp))
  · exact hrun key _

theorem framed_handleTtl {now : ℤ} (args : Args) {d : Data S} (hnow : 0 ≤ now)
    (hexpiry : ∀ key v, d.find? key = some v → v.expiryTime < 2 ^ 63) :
    Framed (handleTtl now args d).1 := by
  refine framed_withKey (by decide) fun key => framed_intReply ?_
  rcases ifLive_cases now (-2) (fun v => (v.ttlSeconds now, d)) key d with ⟨-, h⟩ | ⟨v, hv, h⟩
  · rw [Database.ttl, h]
    decide
  · have hlt := hexpiry key v hv
    rw [Database.ttl, h]
    show -(2 ^ 63) ≤ v.ttlSeconds now ∧ v.ttlSeconds now < 2 ^ 63
    unfold RedisValue.ttlSeconds
    split
    · decide
    · split
      · decide
      · rw [Int.tdiv_eq_ediv_of_nonneg (by omega)]
        omega

theorem framed_handlePttl {now : ℤ} (args : Args) {d : Data S} (hnow : 0 ≤ now)
    (hexpiry : ∀ key v, d.find? key = some v → v.expiryTime < 2 ^ 63) :
    Framed (handlePttl now args d).1 := by
  refine framed_withKey (by decide) fun key => framed_intReply ?_
  rcases ifLive_cases now (-2) (fun v => (v.ttlMilliseconds now, d)) key d with ⟨-, h⟩ | ⟨v, hv, h⟩
  · rw [Database.pttl, h]
    decide
  · have hlt := hexpiry key v hv
    rw [Database.pttl, h]
    show -(2 ^ 63) ≤ v.ttlMilliseconds now ∧ v.ttlMilliseconds now < 2 ^ 63
    unfold RedisValue.ttlMilliseconds
    split
    · decide
    · split
      · decide
      · omega

theorem framed_handlePublish (args : Args) {s : Session S Λ}
    (hsubs : ∀ channel, (s.world.pubsub.getSubscribers channel).length ≤ capacity) :
    Framed (handlePublish args s).1 := by
  unfold handlePublish
  split
  · split
    · exact framed_count (hsubs _)
    · exact framed_errReply (by decide)
  · exact framed_errReply (by decide)

theorem oneLine_of_forall {s : Bytes} (h : ∀ b ∈ s, b ≠ 10 ∧ b ≠ 13) : OneLine s :=
  ⟨fun hmem => (h 10 hmem).1 rfl, fun hlast => (h 13 (List.mem_of_getLast? hlast)).2 rfl⟩

/-- Only the last part decides how the line ends. -/
theorem oneLine_append {s t : Bytes} (hs : (10 : UInt8) ∉ s) (ht : OneLine t) (hne : t ≠ []) :
    OneLine (s ++ t) := by
  refine ⟨?_, ?_⟩
  · rw [List.mem_append]
    exact not_or.mpr ⟨hs, ht.1⟩
  · rw [List.getLast?_append_of_ne_nil s hne]
    exact ht.2

theorem oneLine_hexBytes (n : ℕ) : OneLine (LuaScriptingEngine.hexBytes n) := by
  have hdigit : ∀ k, k < 16 →
      LuaScriptingEngine.hexDigit k ≠ 10 ∧ LuaScriptingEngine.hexDigit k ≠ 13 := by decide
  apply oneLine_of_forall
  intro b hb
  unfold LuaScriptingEngine.hexBytes at hb
  split at hb
  · rw [List.mem_singleton.mp hb]
    decide
  · obtain ⟨k, hk, rfl⟩ := List.mem_map.mp (List.mem_reverse.mp hb)
    exact hdigit k (Nat.digits_lt_base (by omega) hk)

theorem framed_scriptLoad (script : Bytes) (e : LuaScriptingEngine Λ) :
    Framed (LuaScriptingEngine.scriptLoad script e).1 := by
  unfold LuaScriptingEngine.scriptLoad
  split
  · show Framed (errReply "ERR Script contains dangerous functions")
    exact framed_errReply (by decide)
  · exact framed_simple (oneLine_hexBytes _)

theorem framed_handleScript (args : Args) {s : Session S Λ} (hargs : args.length ≤ capacity) :
    Framed (handleScript args s).1 := by
  unfold handleScript
  split
  · rename_i name subcmd rest
    split
    · exact framed_errReply (by decide)
    · split
      · split
        · exact framed_scriptLoad _ _
        · exact framed_errReply (by decide)
      · split
        · split
          · exact framed_errReply (by decide)
          · rename_i shas hshas
            have hlength : (shas.map fun sha =>
                boolReply (LuaScriptingEngine.scriptExists sha s.self.engine)).length = rest.length := by
              rw [List.length_map, length_allBulk hshas]
            have hrest : rest.length ≤ RespParser.vectorMaxSize := by
              simp only [List.length_cons, capacity] at hargs
              unfold RespParser.vectorMaxSize
              omega
            have hbools : ∀ r ∈ shas.map fun sha =>
                boolReply (LuaScriptingEngine.scriptExists sha s.self.engine), Framed r := by
              intro r hr
              obtain ⟨sha, -, rfl⟩ := List.mem_map.mp hr
              exact framed_boolReply _
            obtain ⟨elems, -, hwire, hwide⟩ := framed_execReply hbools (by rw [hlength]; exact hrest)
            rw [execReply, hlength, ← List.flatMap_def] at hwire
            exact ⟨.array elems, hwire, hwide⟩
        · split
          · exact framed_okReply
          · exact framed_errReply (by decide)
  · exact framed_errReply (by decide)

/-! ### Cluster -/

/-- A configuration that can be reported: at least one node, addresses that fit on a line, `int`
ports and slot count. -/
structure ClusterConfig.Reportable (cfg : ClusterConfig) : Prop where
  nodes : cfg.nodes ≠ []
  addresses : ∀ node ∈ cfg.nodes, (10 : UInt8) ∉ node.ipAddress
  ports : ∀ node ∈ cfg.nodes, -(2 ^ 31) ≤ node.port ∧ node.port < 2 ^ 31
  slots : 0 ≤ cfg.totalSlots ∧ cfg.totalSlots < 2 ^ 31

theorem framed_execReply_any {results : List Bytes} (h : ∀ r ∈ results, Framed r)
    (hcount : results.length ≤ RespParser.vectorMaxSize) : Framed (execReply results) := by
  obtain ⟨elems, -, hwire, hwide⟩ := framed_execReply h hcount
  exact ⟨.array elems, hwire, hwide⟩

theorem framed_slotLine {cfg : ClusterConfig} (hcfg : cfg.Reportable) {slot : ℕ}
    (hslot : slot < 2 ^ 31) : Framed (slotLine cfg slot) := by
  have hpos : 0 < cfg.nodes.length := List.length_pos_iff.mpr hcfg.nodes
  have hlt : slot % cfg.nodes.length < cfg.nodes.length := Nat.mod_lt _ hpos
  obtain ⟨node, hnode⟩ : ∃ node, cfg.nodes[slot % cfg.nodes.length]? = some node :=
    ⟨_, List.getElem?_eq_getElem hlt⟩
  have hport := hcfg.ports node (List.mem_of_getElem? hnode)
  have hsource : Framed (execReply [bulkReply node.ipAddress, intReply node.port,
      bulkReply node.nodeId]) := by
    refine framed_execReply_any (fun r hr => ?_) (show 3 ≤ RespParser.vectorMaxSize by decide)
    rcases List.mem_cons.mp hr with rfl | hr
    · exact framed_bulkReply _
    · rcases List.mem_cons.mp hr with rfl | hr
      · exact framed_intReply (by omega)
      · rw [List.mem_singleton.mp hr]
        exact framed_bulkReply _
  have hline : slotLine cfg slot = execReply [intReply slot, intReply slot,
      execReply [bulkReply node.ipAddress, intReply node.port, bulkReply node.nodeId]] := by
    have hthree : str "*3\r\n" = 42 :: (natBytes 3 ++ crlf) := by decide
    simp [slotLine, hnode, execReply, hthree]
  rw [hline]
  refine framed_execReply_any (fun r hr => ?_) (show 3 ≤ RespParser.vectorMaxSize by decide)
  rcases List.mem_cons.mp hr with rfl | hr
  · exact framed_intReply (by omega)
  · rcases List.mem_cons.mp hr with rfl | hr
    · exact framed_intReply (by omega)
    · rw [List.mem_singleton.mp hr]
      exact hsource

theorem framed_handleCluster {cfg : ClusterConfig} (hcfg : cfg.Reportable) (args : Args) :
    Framed (handleCluster cfg args) := by
  unfold handleCluster
  split
  · split
    · exact framed_errReply (by decide)
    · split
      · exact framed_bulkReply _
      · split
        · exact framed_bulkReply _
        · split
          · have hslots := hcfg.slots
            have hcount : intBytes cfg.totalSlots = natBytes ((List.range cfg.totalSlots.toNat).map
                (slotLine cfg)).length := by
              rw [List.length_map, List.length_range, intBytes, if_neg (by omega),
                show cfg.totalSlots.natAbs = cfg.totalSlots.toNat by omega]
            rw [hcount, List.flatMap_def]
            refine framed_execReply_any (fun r hr => ?_) ?_
            · obtain ⟨slot, hslot, rfl⟩ := List.mem_map.mp hr
              have hlt := List.mem_range.mp hslot
              exact framed_slotLine hcfg (by omega)
            · rw [List.length_map, List.length_range]
              unfold RespParser.vectorMaxSize
              omega
          · exact framed_errReply (by decide)
  · exact framed_errReply (by decide)

theorem oneLine_intBytes (z : ℤ) : OneLine (intBytes z) ∧ intBytes z ≠ [] := by
  have hdigits : OneLine (natBytes z.natAbs) := by
    apply oneLine_of_forall
    intro b hb
    have hdigit := isDigit_of_mem_natBytes hb
    refine ⟨?_, ?_⟩ <;>
    · rintro rfl
      exact absurd hdigit (by decide)
  rw [intBytes_eq]
  exact ⟨oneLine_append (lf_not_mem_signBytes z) hdigits (natBytes_ne_nil _),
    List.append_ne_nil_of_right_ne_nil _ (natBytes_ne_nil _)⟩

theorem framed_movedReply {env : Env Λ} {node : ClusterNode} (key : Bytes)
    (haddress : (10 : UInt8) ∉ node.ipAddress) : Framed (movedReply env key node) := by
  have hslot : (10 : UInt8) ∉ natBytes (env.cluster.hashSlot env.hash key) :=
    (paddedNat_natBytes _).not_mem (by decide)
  have hfront : (10 : UInt8) ∉ str "MOVED " ++ natBytes (env.cluster.hashSlot env.hash key) ++
      str " " ++ node.ipAddress ++ str ":" := by
    simp only [List.mem_append, not_or]
    exact ⟨⟨⟨⟨by decide, hslot⟩, by decide⟩, haddress⟩, by decide⟩
  have hport := oneLine_intBytes node.port
  have hmoved : movedReply env key node = 45 :: ((str "MOVED " ++
      natBytes (env.cluster.hashSlot env.hash key) ++ str " " ++ node.ipAddress ++ str ":" ++
      intBytes node.port) ++ crlf) := by
    have hsign : str "-MOVED " = 45 :: str "MOVED " := by decide
    simp [movedReply, hsign]
  rw [hmoved]
  exact framed_error (oneLine_append hfront hport.1 hport.2)

theorem mem_nodes_of_redirect {env : Env Λ} {cmd : Option Command} {args : Args}
    {x : Bytes × ClusterNode} (h : redirect env cmd args = some x) : x.2 ∈ env.cluster.nodes := by
  unfold redirect at h
  split at h
  · split at h
    · obtain ⟨key, -, h⟩ := Option.bind_eq_some_iff.mp h
      obtain ⟨node, hnode, h⟩ := Option.bind_eq_some_iff.mp h
      split at h
      · obtain rfl := Option.some.inj h
        show node ∈ env.cluster.nodes
        unfold ClusterConfig.getNodeForKey at hnode
        split at hnode
        · simp only at hnode
          split at hnode
          · rename_i hfind
            obtain rfl := Option.some.inj hnode
            exact List.mem_of_find?_eq_some hfind
          · exact List.mem_of_head? hnode
        · cases hnode
      · cases h
    · cases h
  · cases h

/-! ### `process_command` -/

/-- The sizes and the clock a running server can have: stored elements, queued arguments, subscribers
and the command lie in memory together, time stamps are 64 bits wide. -/
structure InMemory (env : Env Λ) (now : ℤ) (args : Args) (s : Session S Λ) : Prop where
  memory : Database.elements s.world.data + queueWeight s.self.transactionQueue + args.length ≤
    capacity
  subscribers : ∀ channel, (s.world.pubsub.getSubscribers channel).length ≤ capacity
  clock : 0 ≤ now
  expiries : ∀ key v, s.world.data.find? key = some v → v.expiryTime < 2 ^ 63
  cluster : env.cluster.Reportable

/-- The commands whose replies are not one value: a line for each channel, or a script's text. -/
def Command.unframed : Command → Bool
  | .subscribe | .unsubscribe | .eval | .evalsha => true
  | _ => false

theorem framed_dispatch {env : Env Λ} {now : ℤ} {cmd : Option Command} {args : Args}
    {s : Session S Λ} (hmem : InMemory env now args s)
    (hcmd : ∀ c, cmd = some c → c.unframed = false) : Framed (dispatch env now cmd args s).1 := by
  have hmemory := hmem.memory
  cases cmd with
  | none => exact framed_unknown
  | some c =>
    have hframes := hcmd c rfl
    cases hclosure : c.lacksClosure || c.isControl with
    | false =>
      rw [Bool.or_eq_false_iff] at hclosure
      refine (served_dispatch env now (fun c' hc' => ?_) (by omega)).framed
      rw [← Option.some.inj hc']
      exact hclosure
    | true =>
      cases c with
      | multi => exact framed_handleMulti args s
      | exec => exact framed_handleExec_any env now args (by omega)
      | discard => exact framed_handleDiscard args s
      | expire => exact framed_withDuration (by decide) fun _ _ => framed_boolReply _
      | pexpire => exact framed_withDuration (by decide) fun _ _ => framed_boolReply _
      | ttl => exact framed_handleTtl args hmem.clock hmem.expiries
      | pttl => exact framed_handlePttl args hmem.clock hmem.expiries
      | persist => exact framed_withKey (by decide) fun _ => framed_boolReply _
      | watch => exact framed_handleWatch args s
      | unwatch => exact framed_handleUnwatch args s
      | publish => exact framed_handlePublish args hmem.subscribers
      | script => exact framed_handleScript args (by omega)
      | cluster => exact framed_handleCluster hmem.cluster args
      | info => exact framed_bulkReply _
      | subscribe | unsubscribe | eval | evalsha => cases hframes
      | _ => cases hclosure

theorem framed_processCommand {env : Env Λ} {now : ℤ} {command : RespValue} {s : Session S Λ}
    (hmem : InMemory env now command.args s)
    (hcmd : ∀ c, command.command? = some c → c.unframed = false) :
    Framed (processCommand env now command s).1 := by
  unfold processCommand
  split
  · simp only
    split
    · show Framed (43 :: (str "QUEUED" ++ crlf))
      exact framed_simple (by decide)
    · unfold routeAndDispatch
      split
      · rename_i x hx
        exact framed_movedReply x.1 (hmem.cluster.addresses x.2 (mem_nodes_of_redirect hx))
      · exact framed_dispatch hmem hcmd
  · exact framed_errReply (by decide)
  · exact framed_errReply (by decide)

/-! ### Commands that answer an array -/

/-- The strings the store's method returns for an accepted command that answers an array. -/
inductive Returns (d : Data S) : Command → Args → List Bytes → Prop where
  | keys (name : RespValue) : Returns d .keys [name] (Database.keys d)
  | lrange (name : RespValue) (key : Bytes) {first last : RespValue} {start stop : ℤ} :
      stoi first.strVal = some start → stoi last.strVal = some stop →
      Returns d .lrange [name, .bulkString key, first, last] (Database.lrange key start stop d)
  | smembers (name : RespValue) (key : Bytes) :
      Returns d .smembers [name, .bulkString key] (Database.smembers key d)
  | sinter (name : RespValue) {keys : List Bytes} : keys ≠ [] →
      Returns d .sinter (name :: keys.map .bulkString) (Database.sinter keys d)
  | sunion (name : RespValue) {keys : List Bytes} : keys ≠ [] →
      Returns d .sunion (name :: keys.map .bulkString) (Database.sunion keys d)
  | sdiff (name : RespValue) {keys : List Bytes} : keys ≠ [] →
      Returns d .sdiff (name :: keys.map .bulkString) (Database.sdiff keys d)
  | hkeys (name : RespValue) (key : Bytes) :
      Returns d .hkeys [name, .bulkString key] (Database.hkeys key d)
  | hvals (name : RespValue) (key : Bytes) :
      Returns d .hvals [name, .bulkString key] (Database.hvals key d)
  | hgetall (name : RespValue) (key : Bytes) :
      Returns d .hgetall [name, .bulkString key] (hashItems (Database.hgetall key d))
  | zrange (name : RespValue) (key : Bytes) {first last : RespValue} (more : List RespValue)
      {start stop : ℤ} : stoi first.strVal = some start → stoi last.strVal = some stop →
      Returns d .zrange (name :: .bulkString key :: first :: last :: more)
        (Database.zrange key start stop d)
  | zrevrange (name : RespValue) (key : Bytes) {first last : RespValue} (more : List RespValue)
      {start stop : ℤ} : stoi first.strVal = some start → stoi last.strVal = some stop →
      Returns d .zrevrange (name :: .bulkString key :: first :: last :: more)
        (Database.zrevrange key start stop d)

def Command.answersArray : Command → Bool
  | .keys | .lrange | .smembers | .sinter | .sunion | .sdiff | .hkeys | .hvals | .hgetall | .zrange
  | .zrevrange => true
  | _ => false

theorem withKeys_bulk (arity notBulk : String) (read : List Bytes → Data S → Bytes)
    (name : RespValue) {keys : List Bytes} (hne : keys ≠ []) (d : Data S) :
    withKeys arity notBulk read (name :: keys.map .bulkString) d = (read keys d, d) := by
  cases keys with
  | nil => exact absurd rfl hne
  | cons key keys =>
    have hall := allBulk_eq_some_iff.mpr (rfl : (key :: keys).map RespValue.bulkString = _)
    rw [List.map_cons] at hall
    rw [List.map_cons]
    simp only [withKeys, hall]

theorem reply_of_returns (env : Env Λ) (now : ℤ) {cmd : Command} {args : Args} {s : Session S Λ}
    {items : List Bytes} (h : Returns s.world.data cmd args items) :
    (dispatch env now (some cmd) args s).1 = arrayReply items := by
  cases h with
  | keys => rfl
  | lrange name key hstart hstop =>
    simp [dispatch, liftData, handleLrange, withRange, RespValue.bulk?, hstart, hstop]
  | smembers => rfl
  | sinter name hne => exact congrArg Prod.fst (withKeys_bulk _ _ _ name hne s.world.data)
  | sunion name hne => exact congrArg Prod.fst (withKeys_bulk _ _ _ name hne s.world.data)
  | sdiff name hne => exact congrArg Prod.fst (withKeys_bulk _ _ _ name hne s.world.data)
  | hkeys => rfl
  | hvals => rfl
  | hgetall name key => exact hashReply_eq _
  | zrange name key more hstart hstop =>
    simp [dispatch, liftData, handleZrange, withRange, RespValue.bulk?, hstart, hstop]
  | zrevrange name key more hstart hstop =>
    simp [dispatch, liftData, handleZrevrange, withRange, RespValue.bulk?, hstart, hstop]

theorem error_of_refuses {msgs : List String} {h : Data S → Bytes × Data S} (href : Refuses msgs h)
    (hmsgs : ∀ msg ∈ msgs, OneLine (str msg)) (d : Data S) :
    ∃ msg, OneLine (str msg) ∧ (h d).1 = errReply msg := by
  obtain ⟨msg, hmem, hd⟩ := href
  exact ⟨msg, hmsgs msg hmem, by rw [hd]⟩

theorem withKeys_cases (arity notBulk : String) (read : List Bytes → Data S → Bytes) (args : Args) :
    Refuses [arity, notBulk] (withKeys arity notBulk read args) ∨
      ∃ name keys, keys ≠ [] ∧ args = name :: keys.map .bulkString := by
  unfold withKeys
  split
  · rename_i name key keys
    cases hall : allBulk (key :: keys) with
    | none => exact .inl ⟨notBulk, by simp, fun d => rfl⟩
    | some values =>
      have hvalues := allBulk_eq_some_iff.mp hall
      refine .inr ⟨name, values, ?_, by rw [hvalues]⟩
      intro hnil
      rw [hnil] at hvalues
      cases hvalues
  · exact .inl ⟨arity, by simp, fun d => rfl⟩

theorem withRange_cases (accepts : ℕ → Bool) (arity notBulk notInt : String)
    (read : Bytes → ℤ → ℤ → Data S → Bytes) (args : Args) :
    Refuses [arity, notBulk, notInt] (withRange accepts arity notBulk notInt read args) ∨
      ∃ name key first last more start stop, args = name :: .bulkString key :: first :: last :: more ∧
        accepts args.length = true ∧ stoi first.strVal = some start ∧
        stoi last.strVal = some stop := by
  unfold withRange
  split
  · rename_i name key first last more
    cases haccepts : accepts (name :: key :: first :: last :: more).length with
    | false => exact .inl ⟨arity, by simp, fun d => by simp⟩
    | true =>
      cases hkey : key.bulk? with
      | none => exact .inl ⟨notBulk, by simp, fun d => by simp⟩
      | some k =>
        cases hstart : stoi first.strVal with
        | none => exact .inl ⟨notInt, by simp, fun d => by simp⟩
        | some start =>
          cases hstop : stoi last.strVal with
          | none => exact .inl ⟨notInt, by simp, fun d => by simp⟩
          | some stop =>
            exact .inr ⟨name, k, first, last, more, start, stop, by rw [bulk?_eq_some hkey], rfl,
              hstart, hstop⟩
  · exact .inl ⟨arity, by simp, fun d => rfl⟩

/-- The commands with one key. -/
theorem returns_or_error_withKey {arity notBulk : String} {run : Bytes → Data S → Bytes × Data S}
    {cmd : Command} {args : Args} {d : Data S}
    (hmsgs : ∀ msg ∈ [arity, notBulk], OneLine (str msg))
    (hreturns : ∀ name key, ∃ items, Returns d cmd [name, .bulkString key] items) :
    (∃ items, Returns d cmd args items) ∨
      ∃ msg, OneLine (str msg) ∧ (withKey arity notBulk run args d).1 = errReply msg := by
  rcases withKey_cases arity notBulk run args with href | ⟨name, key, rfl, -⟩
  · exact .inr (error_of_refuses href hmsgs d)
  · exact .inl (hreturns name key)

theorem returns_or_error_withKeys {arity notBulk : String} {read : List Bytes → Data S → Bytes}
    {cmd : Command} {args : Args} {d : Data S}
    (hmsgs : ∀ msg ∈ [arity, notBulk], OneLine (str msg))
    (hreturns : ∀ name keys, keys ≠ [] → ∃ items, Returns d cmd (name :: keys.map .bulkString) items) :
    (∃ items, Returns d cmd args items) ∨
      ∃ msg, OneLine (str msg) ∧ (withKeys arity notBulk read args d).1 = errReply msg := by
  rcases withKeys_cases arity notBulk read args with href | ⟨name, keys, hne, rfl⟩
  · exact .inr (error_of_refuses href hmsgs d)
  · exact .inl (hreturns name keys hne)

/-- The two walks over the score index take further arguments. -/
theorem returns_or_error_withRange {accepts : ℕ → Bool} {arity notBulk notInt : String}
    {read : Bytes → ℤ → ℤ → Data S → Bytes} {cmd : Command} {args : Args} {d : Data S}
    (hmsgs : ∀ msg ∈ [arity, notBulk, notInt], OneLine (str msg))
    (hreturns : ∀ name key first last more start stop, accepts (4 + more.length) = true →
      stoi (RespValue.strVal first) = some start → stoi (RespValue.strVal last) = some stop →
      ∃ items, Returns d cmd (name :: .bulkString key :: first :: last :: more) items) :
    (∃ items, Returns d cmd args items) ∨
      ∃ msg, OneLine (str msg) ∧
        (withRange accepts arity notBulk notInt read args d).1 = errReply msg := by
  rcases withRange_cases accepts arity notBulk notInt read args with
    href | ⟨name, key, first, last, more, start, stop, rfl, haccepts, hstart, hstop⟩
  · exact .inr (error_of_refuses href hmsgs d)
  · refine .inl (hreturns name key first last more start stop ?_ hstart hstop)
    rwa [List.length_cons, List.length_cons, List.length_cons, List.length_cons,
      show more.length + 1 + 1 + 1 + 1 = 4 + more.length by omega] at haccepts

theorem returns_or_error {cmd : Command} (hcmd : cmd.answersArray = true) (env : Env Λ) (now : ℤ)
    (args : Args) (s : Session S Λ) :
    (∃ items, Returns s.world.data cmd args items) ∨
      ∃ msg, OneLine (str msg) ∧ (dispatch env now (some cmd) args s).1 = errReply msg := by
  cases cmd with
  | keys =>
    by_cases hargs : args.length = 1
    · obtain ⟨name, rfl⟩ := List.length_eq_one_iff.mp hargs
      exact .inl ⟨_, .keys name⟩
    · refine .inr ⟨"ERR KEYS requires no arguments", by decide, ?_⟩
      simp [dispatch, liftData, handleKeys, hargs]
  | lrange =>
    refine returns_or_error_withRange (by decide)
      fun name key first last more start stop haccepts hstart hstop => ?_
    have hmore : more = [] := by
      rw [beq_iff_eq] at haccepts
      exact List.length_eq_zero_iff.mp (by omega)
    rw [hmore]
    exact ⟨_, .lrange name key hstart hstop⟩
  | smembers => exact returns_or_error_withKey (by decide) fun name key => ⟨_, .smembers name key⟩
  | sinter => exact returns_or_error_withKeys (by decide) fun name _ hne => ⟨_, .sinter name hne⟩
  | sunion => exact returns_or_error_withKeys (by decide) fun name _ hne => ⟨_, .sunion name hne⟩
  | sdiff => exact returns_or_error_withKeys (by decide) fun name _ hne => ⟨_, .sdiff name hne⟩
  | hkeys => exact returns_or_error_withKey (by decide) fun name key => ⟨_, .hkeys name key⟩
  | hvals => exact returns_or_error_withKey (by decide) fun name key => ⟨_, .hvals name key⟩
  | hgetall => exact returns_or_error_withKey (by decide) fun name key => ⟨_, .hgetall name key⟩
  | zrange =>
    exact returns_or_error_withRange (by decide)
      fun name key _ _ more _ _ _ hstart hstop => ⟨_, .zrange name key more hstart hstop⟩
  | zrevrange =>
    exact returns_or_error_withRange (by decide)
      fun name key _ _ more _ _ _ hstart hstop => ⟨_, .zrevrange name key more hstart hstop⟩
  | _ => cases hcmd

/-- A framed array reply has a count the parser takes. -/
theorem length_le_of_framed_arrayReply {items : List Bytes} (h : Framed (arrayReply items)) :
    items.length ≤ RespParser.vectorMaxSize := by
  obtain ⟨v, hwire, hwide⟩ := h
  unfold arrayReply at hwire
  generalize hbytes : natBytes items.length ++ (crlf ++ items.flatMap bulkReply) = bs at hwire
  cases hwire with
  | @array elems ds hcount helems =>
    obtain ⟨hne, hdigits, hvalue⟩ := paddedNat_iff.mp hcount
    have hcr : ∀ (x : Bytes), ∀ b ∈ (crlf ++ x).head?, isDigit b = false := by
      intro x b hb
      cases hb
      rfl
    have hread := readInteger_natBytes items.length (hcr (items.flatMap bulkReply))
    rw [hbytes, readInteger_digits hne hdigits (hcr _), hvalue] at hread
    have hlength : elems.length = items.length := (Prod.mk.inj (Option.some.inj hread)).2
    rw [RespValue.widest, List.length_map, hlength] at hwide
    exact (le_max_left _ _).trans hwide

theorem Command.not_routed_of_answersArray {cmd : Command} (h : cmd.answersArray = true) :
    cmd.routed = false := by
  cases cmd <;> first | rfl | cases h

/-- Where no slot is computed, or there are slots, `process_command` returns, and the parser reads its
reply as one value and consumes all of it.  The commands that answer an array give back what the store
returned, in order, or an error when the arguments are refused; a successful `EXEC` gives one element
for each queued command. -/
theorem parse_reply (env : Env Λ) (now : ℤ) (command : RespValue) (s : Session S Λ) (grants : ℕ)
    (hmem : InMemory env now command.args s)
    (hslots : computesSlot env.cluster s.self.inTransaction command = true → 0 < env.cluster.totalSlots)
    (hcmd : ∀ c, command.command? = some c → c.unframed = false)
    (hlength : (processCommand env now command s).1.length < 2 ^ 63)
    (hgrants : (processCommand env now command s).1.length ≤ grants) :
    processCommand? env now command s = some (processCommand env now command s) ∧
    ∃ v, RespParser.parse grants (processCommand env now command s).1 =
        .ok (v, (processCommand env now command s).1.length) ∧
      (∀ cmd, command.command? = some cmd → cmd.answersArray = true → s.self.inTransaction = false →
        (∀ items, Returns s.world.data cmd command.args items →
            v = .array (items.map .bulkString)) ∧
          ((∀ items, ¬ Returns s.world.data cmd command.args items) → ∃ msg, v = .error msg)) ∧
      (command.command? = some .exec → command.args.length = 1 → s.self.inTransaction = true →
        watchesHold s.self.watchedKeys s.world.data = true →
        ∃ elems, v = .array elems ∧ elems.length = s.self.transactionQueue.length) := by
  have hparse : ∀ w, Wire w (processCommand env now command s).1 →
      w.widest ≤ RespParser.vectorMaxSize →
      RespParser.parse grants (processCommand env now command s).1 =
        .ok (w, (processCommand env now command s).1.length) := by
    intro w hwire hwide
    have hfront := RespParser.parse_of_wire hwire hwide hlength hgrants []
    rwa [List.append_nil] at hfront
  obtain ⟨v, hwire, hwide⟩ := framed_processCommand hmem hcmd
  have hv := hparse v hwire hwide
  -- parsing is a function, so any wire form of the reply is a form of `v`
  have hsame : ∀ w, Wire w (processCommand env now command s).1 →
      w.widest ≤ RespParser.vectorMaxSize → v = w := by
    intro w hw hwidest
    have heq := hv.symm.trans (hparse w hw hwidest)
    exact (Prod.mk.inj (Except.ok.inj heq)).1
  refine ⟨processCommand?_eq_some now fun h => (hslots h).ne', v, hv, ?_, ?_⟩
  · intro cmd hcommand hanswers hopen
    have hdispatch := processCommand_direct env now hcommand
      (Command.not_routed_of_answersArray hanswers) (.inl hopen)
    refine ⟨fun items hreturns => ?_, fun hnone => ?_⟩
    · have hreply := reply_of_returns env now hreturns
      rw [← hdispatch] at hreply
      have hcount : items.length ≤ RespParser.vectorMaxSize := by
        apply length_le_of_framed_arrayReply
        rw [← hreply]
        exact framed_processCommand hmem hcmd
      apply hsame
      · rw [hreply]
        exact wire_arrayReply items
      · rwa [widest_bulkStrings]
    · rcases returns_or_error hanswers env now command.args s with ⟨items, hitems⟩ | ⟨msg, hline, hmsg⟩
      · exact absurd hitems (hnone items)
      · refine ⟨str msg, hsame (.error (str msg)) ?_ (Nat.zero_le _)⟩
        rw [hdispatch, hmsg]
        exact .error hline.1 hline.2
  · intro hexec hargs hopen hholds
    have hmemory := hmem.memory
    obtain ⟨elems, helems, hwire, hwide⟩ :=
      framed_handleExec env now (by omega) hargs hopen hholds
    refine ⟨elems, hsame _ ?_ hwide, helems⟩
    rwa [processCommand_direct env now hexec rfl (.inr (.inl rfl))]

/-- A client of the two-node cluster whose transaction pushes a value that looks like the head of an
array and reads the list back. -/
def pushTransaction : Session NatScore Unit where
  world := {}
  self :=
    { engine := { state := () }
      inTransaction := true
      transactionQueue :=
        [{ commandName := str "LPUSH", args := [.bulkString (str "LPUSH"), .bulkString [107],
            .bulkString (str "\r\n*3\r\n")] },
         { commandName := str "LRANGE", args := [.bulkString (str "LRANGE"), .bulkString [107],
            .bulkString (str "0"), .bulkString (str "-1")] }] }

theorem inMemory_pushTransaction {env : Env Unit} (hcluster : env.cluster = initializeClusterMvc) :
    InMemory env 0 execCommand.args pushTransaction where
  memory := by decide
  subscribers channel := Nat.zero_le _
  clock := by decide
  expiries key v h := by cases h
  cluster := by
    rw [hcluster]
    exact ⟨by decide, by decide, by decide, by decide⟩

theorem parse_reply_exec :
    let env := { Env.standalone with cluster := initializeClusterMvc }
    let reply := (processCommand env 0 execCommand pushTransaction).1
    InMemory env 0 execCommand.args pushTransaction ∧
      processCommand? env 0 execCommand pushTransaction =
        some (processCommand env 0 execCommand pushTransaction) ∧
      ∃ v, RespParser.parse 64 reply = .ok (v, reply.length) ∧
        ∃ elems, v = .array elems ∧ elems.length = 2 := by
  intro env reply
  have hmem : InMemory env 0 execCommand.args pushTransaction := inMemory_pushTransaction rfl
  have hcommand : execCommand.command? = some .exec := by decide
  obtain ⟨hreturns, v, hparse, -, hexec⟩ := parse_reply env 0 execCommand pushTransaction 64 hmem
    (fun h => absurd h (by decide))
    (fun c hc => by rw [← Option.some.inj (hcommand.symm.trans hc)]; rfl) (by decide) (by decide)
  exact ⟨hmem, hreturns, v, hparse, hexec hcommand rfl rfl (by decide)⟩

/-- The two nodes without slots: a `SET` divides by zero, so there is no reply to parse. -/
theorem no_reply_without_slots :
    let env := { Env.standalone with cluster := { initializeClusterMvc with totalSlots := 0 } }
    let s : Session NatScore Unit := Session.fresh ∅
    let command : RespValue := .array [.bulkString (str "SET"), .bulkString [107], .bulkString [118]]
    InMemory env 0 command.args s ∧ command.command? = some .set ∧
      ¬ ∃ reply s', processCommand? env 0 command s = some (reply, s') ∧
        ∃ v, RespParser.parse 64 reply = .ok (v, reply.length) := by
  intro env s command
  refine ⟨⟨by decide, fun channel => Nat.zero_le _, by decide, ?_, ?_⟩, by decide, ?_⟩
  · intro key v h
    cases h
  · exact ⟨by decide, by decide, by decide, by decide⟩
  · rintro ⟨reply, s', hreply, -⟩
    have hnone : (processCommand? env 0 command s).isNone = true := by decide
    rw [hreply] at hnone
    cases hnone

end MinimalRedis
