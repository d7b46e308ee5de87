import MinimalRedis.Cluster
import MinimalRedis.Commands
import MinimalRedis.Lua
import MinimalRedis.PubSub
import MinimalRedis.Rdb

/-!
# The command processor (`commands.h`, `commands.cpp`)

A `Session` is what one `process_command` call works on: the shared `World` (database, message
queues of the connected processors, the RDB file) and the processor's own state (transaction, watched
keys, script engine).  Command names are decoded once into `Command`; the source compares the
upper-cased name with the same literals in two separate tables,

* `executeFunc` — the closure stored with a queued command,
* `dispatch` — the direct path,

which are written out separately here as well.  The routing step sits before `dispatch` only.
-/

namespace MinimalRedis

open Lib

/-! ### Command names -/

inductive Command where
  | set | get | del | existsKey | keys | save | type
  | lpush | rpush | lpop | rpop | llen | lrange | lindex
  | sadd | srem | sismember | scard | smembers | sinter | sunion | sdiff
  | hset | hget | hdel | hlen | hkeys | hvals | hgetall
  | zadd | zrem | zcard | zrange | zrevrange | zscore | zrank
  | multi | exec | discard
  | expire | pexpire | ttl | pttl | persist
  | watch | unwatch
  | subscribe | publish | unsubscribe
  | eval | evalsha | script | cluster | info
deriving DecidableEq, Repr

def commandTable : List (Bytes × Command) :=
  [(str "SET", .set), (str "GET", .get), (str "DEL", .del), (str "EXISTS", .existsKey),
   (str "KEYS", .keys), (str "SAVE", .save), (str "TYPE", .type),
   (str "LPUSH", .lpush), (str "RPUSH", .rpush), (str "LPOP", .lpop), (str "RPOP", .rpop),
   (str "LLEN", .llen), (str "LRANGE", .lrange), (str "LINDEX", .lindex),
   (str "SADD", .sadd), (str "SREM", .srem), (str "SISMEMBER", .sismember),
   (str "SCARD", .scard), (str "SMEMBERS", .smembers), (str "SINTER", .sinter),
   (str "SUNION", .sunion), (str "SDIFF", .sdiff),
   (str "HSET", .hset), (str "HGET", .hget), (str "HDEL", .hdel), (str "HLEN", .hlen),
   (str "HKEYS", .hkeys), (str "HVALS", .hvals), (str "HGETALL", .hgetall),
   (str "ZADD", .zadd), (str "ZREM", .zrem), (str "ZCARD", .zcard), (str "ZRANGE", .zrange),
   (str "ZREVRANGE", .zrevrange), (str "ZSCORE", .zscore), (str "ZRANK", .zrank),
   (str "MULTI", .multi), (str "EXEC", .exec), (str "DISCARD", .discard),
   (str "EXPIRE", .expire), (str "PEXPIRE", .pexpire), (str "TTL", .ttl), (str "PTTL", .pttl),
   (str "PERSIST", .persist), (str "WATCH", .watch), (str "UNWATCH", .unwatch),
   (str "SUBSCRIBE", .subscribe), (str "PUBLISH", .publish), (str "UNSUBSCRIBE", .unsubscribe),
   (str "EVAL", .eval), (str "EVALSHA", .evalsha), (str "SCRIPT", .script),
   (str "CLUSTER", .cluster), (str "INFO", .info)]

/-- `toupper` in the C locale. -/
def toupper (c : UInt8) : UInt8 := if 97 ≤ c ∧ c ≤ 122 then c - 32 else c

/-- The command an upper-cased name denotes, `none` for an unknown one. -/
def Command.ofName (name : Bytes) : Option Command := commandTable.lookup (name.map toupper)

/-! ### State -/

/-- The part of a registered processor that other clients' commands reach. -/
structure Mailbox where
  pubsubMessages : List Bytes := []
  notifyWriteFd : ℤ := -1
  notifyBytes : ℕ := 0
deriving DecidableEq

def Mailbox.queuePubsubMessage (message : Bytes) (m : Mailbox) : Mailbox :=
  { m with
    pubsubMessages := m.pubsubMessages ++ [message]
    notifyBytes := if m.notifyWriteFd ≠ -1 then m.notifyBytes + 1 else m.notifyBytes }

/-- What all clients share.  `rdbFile` is the content of `minimalredis.rdb`, `fileWritable` says
whether it opens for writing; `aborted` is set when a null pointer reaches `std::string`. -/
structure World (S : Type) [Score S] where
  data : Data S := ∅
  pubsub : PubSubManager := {}
  clientProcessors : UMap ℤ Mailbox := ∅
  rdbFile : Option Bytes := none
  fileWritable : Bool := true
  aborted : Bool := false

/-- A queued command; `execute_func` is determined by these two members. -/
structure TransactionCommand where
  commandName : Bytes
  args : Args

structure SaveDaemonStats where
  running : Bool
  interval : ℕ
  successfulSaves : ℤ
  failedSaves : ℤ

structure Processor (Λ : Type) where
  inTransaction : Bool := false
  transactionQueue : List TransactionCommand := []
  watchedKeys : UMap Bytes UInt64 := ∅
  clientFd : ℤ := -1
  engine : LuaScriptingEngine Λ
  hasClientProcessors : Bool := true
  saveDaemon : Option SaveDaemonStats := none

/-- The constants of a server: cluster configuration, `std::hash`, the Lua interpreter. -/
structure Env (Λ : Type) where
  cluster : ClusterConfig
  hash : Bytes → UInt64
  vm : LuaVM Λ

/-- A server without cluster mode whose scripts all return nil. -/
def Env.standalone : Env Unit where
  cluster := {}
  hash _ := 0
  vm := { load := fun _ _ => none, run := fun state _ _ _ => .done state .nil }

structure Session (S Λ : Type) [Score S] where
  world : World S
  self : Processor Λ

/-- A new client of a server that holds `d`. -/
def Session.fresh {S : Type} [Score S] (d : Data S) : Session S Unit where
  world := { data := d }
  self := { engine := { state := () } }

variable {S : Type} [Score S] {Λ : Type}

namespace Session

def setData (s : Session S Λ) (d : Data S) : Session S Λ :=
  { s with world := { s.world with data := d } }

def setPubsub (s : Session S Λ) (r : PubSubManager) : Session S Λ :=
  { s with world := { s.world with pubsub := r } }

def setEngine (s : Session S Λ) (e : LuaScriptingEngine Λ) : Session S Λ :=
  { s with self := { s.self with engine := e } }

/-- Run a data handler inside a session. -/
def liftData (h : Data S → Bytes × Data S) (s : Session S Λ) : Bytes × Session S Λ :=
  let x := h s.world.data
  (x.1, s.setData x.2)

end Session

open Session

/-! ### Persistence, transactions and watched keys -/

def handleSave (args : Args) (s : Session S Λ) : Bytes × Session S Λ :=
  if args.length ≠ 1 then (errReply "ERR SAVE requires no arguments", s)
  else if s.world.fileWritable then
    (okReply, { s with world := { s.world with rdbFile := some (saveRdb s.world.data) } })
  else (errReply "ERR Failed to save database", s)

/-- The closure a queued command runs. -/
def executeFunc (now : ℤ) (tx : TransactionCommand) (s : Session S Λ) : Bytes × Session S Λ :=
  match commandTable.lookup tx.commandName with
  | some .set => liftData (handleSet tx.args) s
  | some .get => liftData (handleGet now tx.args) s
  | some .del => liftData (handleDel now tx.args) s
  | some .existsKey => liftData (handleExists now tx.args) s
  | some .keys => liftData (handleKeys tx.args) s
  | some .save => handleSave tx.args s
  | some .type => liftData (handleType now tx.args) s
  | some .lpush => liftData (handleLpush tx.args) s
  | some .rpush => liftData (handleRpush tx.args) s
  | some .lpop => liftData (handleLpop now tx.args) s
  | some .rpop => liftData (handleRpop now tx.args) s
  | some .llen => liftData (handleLlen now tx.args) s
  | some .lrange => liftData (handleLrange tx.args) s
  | some .lindex => liftData (handleLindex now tx.args) s
  | some .sadd => liftData (handleSadd tx.args) s
  | some .srem => liftData (handleSrem tx.args) s
  | some .sismember => liftData (handleSismember tx.args) s
  | some .scard => liftData (handleScard tx.args) s
  | some .smembers => liftData (handleSmembers tx.args) s
  | some .sinter => liftData (handleSinter tx.args) s
  | some .sunion => liftData (handleSunion tx.args) s
  | some .sdiff => liftData (handleSdiff tx.args) s
  | some .hset => liftData (handleHset tx.args) s
  | some .hget => liftData (handleHget now tx.args) s
  | some .hdel => liftData (handleHdel tx.args) s
  | some .hlen => liftData (handleHlen tx.args) s
  | some .hkeys => liftData (handleHkeys tx.args) s
  | some .hvals => liftData (handleHvals tx.args) s
  | some .hgetall => liftData (handleHgetall tx.args) s
  | some .zadd => liftData (handleZadd tx.args) s
  | some .zrem => liftData (handleZrem tx.args) s
  | some .zcard => liftData (handleZcard tx.args) s
  | some .zrange => liftData (handleZrange tx.args) s
  | some .zrevrange => liftData (handleZrevrange tx.args) s
  | some .zscore => liftData (handleZscore now tx.args) s
  | some .zrank => liftData (handleZrank tx.args) s
  | _ => (errReply "ERR Unknown command", s)

def handleMulti (args : Args) (s : Session S Λ) : Bytes × Session S Λ :=
  if args.length ≠ 1 then (errReply "ERR MULTI requires no arguments", s)
  else if s.self.inTransaction then (errReply "ERR MULTI cannot be nested", s)
  else (okReply, { s with self := { s.self with inTransaction := true, transactionQueue := [] } })

/-- The execution loop of `EXEC`: the replies in order. -/
def execLoop (now : ℤ) : List TransactionCommand → Session S Λ → List Bytes × Session S Λ
  | [], s => ([], s)
  | tx :: queue, s =>
      let x := executeFunc now tx s
      let rest := execLoop now queue x.2
      (x.1 :: rest.1, rest.2)

def execAbortReply : Bytes :=
  errReply "EXECABORT Transaction discarded because of watched key modification"

/-- The check loop of `EXEC`. -/
def watchesHold (watched : UMap Bytes UInt64) (d : Data S) : Bool :=
  watched.entries.all fun e => Database.getModCount e.1 d == e.2

/-- Leave the transaction: empty queue, no watched keys. -/
def Session.endTransaction (s : Session S Λ) : Session S Λ :=
  { s with self :=
    { s.self with inTransaction := false, transactionQueue := [], watchedKeys := ∅ } }

/-- Replies are concatenated under their number. -/
def execReply (results : List Bytes) : Bytes :=
  42 :: (natBytes results.length ++ (crlf ++ results.flatten))

def handleExec (now : ℤ) (args : Args) (s : Session S Λ) : Bytes × Session S Λ :=
  if args.length ≠ 1 then (errReply "ERR EXEC requires no arguments", s)
  else if !s.self.inTransaction then (errReply "ERR EXEC without MULTI", s)
  else if !watchesHold s.self.watchedKeys s.world.data then (execAbortReply, s.endTransaction)
  else
    let x := execLoop now s.self.transactionQueue s
    (execReply x.1, x.2.endTransaction)

/-- The watched keys stay. -/
def handleDiscard (args : Args) (s : Session S Λ) : Bytes × Session S Λ :=
  if args.length ≠ 1 then (errReply "ERR DISCARD requires no arguments", s)
  else if !s.self.inTransaction then (errReply "ERR DISCARD without MULTI", s)
  else
    (okReply, { s with self := { s.self with inTransaction := false, transactionQueue := [] } })

/-- The loop of `WATCH`: false at the first argument that is no bulk string, the keys before it
being recorded by then. -/
def watchLoop (d : Data S) : List RespValue → UMap Bytes UInt64 → Bool × UMap Bytes UInt64
  | [], watched => (true, watched)
  | v :: vs, watched =>
      match v.bulk? with
      | none => (false, watched)
      | some key => watchLoop d vs (watched.set key (Database.getModCount key d))

def handleWatch (args : Args) (s : Session S Λ) : Bytes × Session S Λ :=
  if args.length < 2 then (errReply "ERR WATCH requires at least 1 argument", s)
  else if s.self.inTransaction then (errReply "ERR WATCH cannot be used inside MULTI", s)
  else
    let x := watchLoop s.world.data args.tail s.self.watchedKeys
    (if x.1 then okReply else errReply "ERR WATCH keys must be bulk strings",
      { s with self := { s.self with watchedKeys := x.2 } })

def handleUnwatch (args : Args) (s : Session S Λ) : Bytes × Session S Λ :=
  if args.length ≠ 1 then (errReply "ERR UNWATCH requires no arguments", s)
  else (okReply, { s with self := { s.self with watchedKeys := ∅ } })

/-! ### Publish/subscribe -/

/-- The loops of `SUBSCRIBE` and `UNSUBSCRIBE`: `none` at the first channel that is no bulk string,
the channels before it being entered by then. -/
def channelLoop (enter : Bytes → PubSubManager → PubSubManager) (line : Bytes → Bytes) :
    List RespValue → PubSubManager → Option Bytes × PubSubManager
  | [], r => (some [], r)
  | v :: vs, r =>
      match v.bulk? with
      | none => (none, r)
      | some channel =>
          let x := channelLoop enter line vs (enter channel r)
          (x.1.map (line channel ++ ·), x.2)

def subscribeLine (channel : Bytes) : Bytes :=
  str "*3\r\n$9\r\nsubscribe\r\n" ++ (bulkReply channel ++ str ":1\r\n")

def unsubscribeLine (channel : Bytes) : Bytes :=
  str "*3\r\n$11\r\nunsubscribe\r\n" ++ (bulkReply channel ++ str ":0\r\n")

def handleSubscribe (args : Args) (s : Session S Λ) : Bytes × Session S Λ :=
  if args.length < 2 then (errReply "ERR SUBSCRIBE requires at least 1 channel", s)
  else
    let x := channelLoop (PubSubManager.subscribe s.self.clientFd) subscribeLine args.tail
      s.world.pubsub
    (x.1.getD (errReply "ERR SUBSCRIBE channels must be bulk strings"), s.setPubsub x.2)

def handleUnsubscribe (args : Args) (s : Session S Λ) : Bytes × Session S Λ :=
  if args.length = 1 then (errReply "ERR UNSUBSCRIBE from all channels not implemented", s)
  else
    let x := channelLoop (PubSubManager.unsubscribe s.self.clientFd) unsubscribeLine args.tail
      s.world.pubsub
    (x.1.getD (errReply "ERR UNSUBSCRIBE channels must be bulk strings"), s.setPubsub x.2)

def pubsubMessage (channel message : Bytes) : Bytes :=
  str "*3\r\n$7\r\nmessage\r\n" ++ (bulkReply channel ++ bulkReply message)

/-- The delivery loop: subscribers without a registered processor are skipped. -/
def deliver (message : Bytes) (subscribers : List ℤ) (processors : UMap ℤ Mailbox) :
    UMap ℤ Mailbox :=
  subscribers.foldl (fun processors fd =>
    match processors.find? fd with
    | none => processors
    | some mailbox => processors.set fd (mailbox.queuePubsubMessage message)) processors

def handlePublish (args : Args) (s : Session S Λ) : Bytes × Session S Λ :=
  match args with
  | [_, channel, message] =>
      match channel.bulk?, message.bulk? with
      | some channel, some message =>
          let subscribers := s.world.pubsub.getSubscribers channel
          let processors := if s.self.hasClientProcessors
            then deliver (pubsubMessage channel message) subscribers s.world.clientProcessors
            else s.world.clientProcessors
          (intReply subscribers.length,
            { s with world := { s.world with clientProcessors := processors } })
      | _, _ => (errReply "ERR PUBLISH arguments must be bulk strings", s)
  | _ => (errReply "ERR PUBLISH requires exactly 2 arguments", s)

/-! ### Scripting -/

/-- The argument checks of `EVAL` and `EVALSHA`.  The bound test compares `size_t` with an `int` sum,
so a sum that is negative after wrapping is a huge bound. -/
def withScript (cmd what : String) (run : Bytes → List Bytes → List Bytes →
    Session S Λ → Bytes × Session S Λ) (args : Args) (s : Session S Λ) : Bytes × Session S Λ :=
  match args with
  | _ :: script :: numKeys :: _ =>
      match script.bulk?, numKeys.bulk? with
      | some script, some numKeys =>
          match stoi numKeys with
          | none => (errReply ("ERR " ++ cmd ++ " numkeys must be an integer"), s)
          | some numKeys =>
              let bound := wrap32 (3 + numKeys)
              if args.length < (bound % 2 ^ 64).toNat then
                (errReply ("ERR " ++ cmd ++ " insufficient arguments for numkeys"), s)
              else
                match allBulk ((args.drop 3).take numKeys.toNat) with
                | none => (errReply ("ERR " ++ cmd ++ " keys must be bulk strings"), s)
                | some keys =>
                    match allBulk (args.drop bound.toNat) with
                    | none => (errReply ("ERR " ++ cmd ++ " arguments must be bulk strings"), s)
                    | some scriptArgs => run script keys scriptArgs s
      | _, _ => (errReply ("ERR " ++ cmd ++ " " ++ what ++ " and numkeys must be bulk strings"), s)
  | _ => (errReply ("ERR " ++ cmd ++ " requires at least 3 arguments"), s)

/-- Install an engine call's outcome in the session. -/
def scriptOutcome (s : Session S Λ) :
    Option (Bytes × LuaScriptingEngine Λ × Data S) → Bytes × Session S Λ
  | some x => (x.1, (s.setEngine x.2.1).setData x.2.2)
  | none => ([], { s with world := { s.world with aborted := true } })

def handleEval (vm : LuaVM Λ) (now : ℤ) : Args → Session S Λ → Bytes × Session S Λ :=
  withScript "EVAL" "script" fun script keys args s =>
    scriptOutcome s (LuaScriptingEngine.eval vm now script keys args s.self.engine s.world.data)

def handleEvalsha (vm : LuaVM Λ) (now : ℤ) : Args → Session S Λ → Bytes × Session S Λ :=
  withScript "EVALSHA" "sha1" fun sha1 keys args s =>
    scriptOutcome s (LuaScriptingEngine.evalsha vm now sha1 keys args s.self.engine s.world.data)

def handleScript (args : Args) (s : Session S Λ) : Bytes × Session S Λ :=
  match args with
  | _ :: subcmd :: rest =>
      match subcmd.bulk? with
      | none => (errReply "ERR SCRIPT subcommand must be a bulk string", s)
      | some subcmd =>
          if subcmd = str "LOAD" then
            match allBulk rest with
            | some [script] =>
                let x := LuaScriptingEngine.scriptLoad script s.self.engine
                (x.1, s.setEngine x.2)
            | _ => (errReply "ERR SCRIPT LOAD requires exactly 1 argument", s)
          else if subcmd = str "EXISTS" then
            match allBulk rest with
            | none => (errReply "ERR SCRIPT EXISTS arguments must be bulk strings", s)
            | some shas =>
                (42 :: (natBytes rest.length ++ (crlf ++ shas.flatMap fun sha =>
                  boolReply (LuaScriptingEngine.scriptExists sha s.self.engine))), s)
          else if subcmd = str "FLUSH" then
            (okReply, s.setEngine (LuaScriptingEngine.scriptFlush s.self.engine))
          else (errReply "ERR Unknown SCRIPT subcommand", s)
  | _ => (errReply "ERR SCRIPT requires at least 1 subcommand", s)

/-! ### Cluster and server information -/

def nodeInfo (node : ClusterNode) : Bytes :=
  node.nodeId ++ str " " ++ node.ipAddress ++ str ":" ++ intBytes node.port ++
    (if node.isMaster then str " master" else str " slave") ++ str " - 0 0 0 connected" ++
    node.assignedSlots.flatMap (fun slot => str " " ++ intBytes slot) ++ crlf

def clusterInfo (cfg : ClusterConfig) : Bytes :=
  str "cluster_state:ok\r\n" ++
    str "cluster_slots_assigned:" ++ intBytes cfg.totalSlots ++ crlf ++
    str "cluster_slots_ok:" ++ intBytes cfg.totalSlots ++ crlf ++
    str "cluster_size:" ++ natBytes cfg.nodes.length ++ crlf

/-- The nodes take the slots in turn, whatever their `assigned_slots`. -/
def slotLine (cfg : ClusterConfig) (slot : ℕ) : Bytes :=
  match cfg.nodes[slot % cfg.nodes.length]? with
  | none => []
  | some node =>
      str "*3\r\n" ++ intReply slot ++ intReply slot ++ str "*3\r\n" ++ bulkReply node.ipAddress ++
        intReply node.port ++ bulkReply node.nodeId

def handleCluster (cfg : ClusterConfig) (args : Args) : Bytes :=
  match args with
  | _ :: subcmd :: _ =>
      match subcmd.bulk? with
      | none => errReply "ERR CLUSTER subcommand must be a bulk string"
      | some subcmd =>
          if subcmd = str "NODES" then bulkReply (cfg.nodes.flatMap nodeInfo)
          else if subcmd = str "INFO" then bulkReply (clusterInfo cfg)
          else if subcmd = str "SLOTS" then
            42 :: (intBytes cfg.totalSlots ++ (crlf ++
              (List.range cfg.totalSlots.toNat).flatMap (slotLine cfg)))
          else errReply "ERR Unknown CLUSTER subcommand"
  | _ => errReply "ERR CLUSTER requires at least 1 subcommand"

def infoText (daemon : Option SaveDaemonStats) : Bytes :=
  str "# Server\r\nredis_version:MinimalRedis-1.0\r\nredis_mode:standalone\r\nos:macOS\r\n" ++
    str "uptime_in_seconds:0\r\nconnected_clients:1\r\n" ++
    str "\n# Memory\r\nused_memory:0\r\ntotal_system_memory:0\r\n" ++
    str "\n# Stats\r\ntotal_commands_processed:0\r\n" ++
    (match daemon with
     | none => []
     | some x =>
        str "\n# Save Daemon\r\nsave_daemon_running:" ++ (if x.running then str "yes" else str "no") ++
          crlf ++ str "save_daemon_interval:" ++ natBytes x.interval ++ crlf ++
          str "save_daemon_successful_saves:" ++ intBytes x.successfulSaves ++ crlf ++
          str "save_daemon_failed_saves:" ++ intBytes x.failedSaves ++ crlf)

def handleInfo (s : Session S Λ) : Bytes := bulkReply (infoText s.self.saveDaemon)

/-! ### `process_command` -/

/-- The direct path, once routing has let the command through. -/
def dispatch (env : Env Λ) (now : ℤ) (cmd : Option Command) (args : Args) (s : Session S Λ) :
    Bytes × Session S Λ :=
  match cmd with
  | some .set => liftData (handleSet args) s
  | some .get => liftData (handleGet now args) s
  | some .del => liftData (handleDel now args) s
  | some .existsKey => liftData (handleExists now args) s
  | some .keys => liftData (handleKeys args) s
  | some .save => handleSave args s
  | some .type => liftData (handleType now args) s
  | some .lpush => liftData (handleLpush args) s
  | some .rpush => liftData (handleRpush args) s
  | some .lpop => liftData (handleLpop now args) s
  | some .rpop => liftData (handleRpop now args) s
  | some .llen => liftData (handleLlen now args) s
  | some .lrange => liftData (handleLrange args) s
  | some .lindex => liftData (handleLindex now args) s
  | some .sadd => liftData (handleSadd args) s
  | some .srem => liftData (handleSrem args) s
  | some .sismember => liftData (handleSismember args) s
  | some .scard => liftData (handleScard args) s
  | some .smembers => liftData (handleSmembers args) s
  | some .sinter => liftData (handleSinter args) s
  | some .sunion => liftData (handleSunion args) s
  | some .sdiff => liftData (handleSdiff args) s
  | some .hset => liftData (handleHset args) s
  | some .hget => liftData (handleHget now args) s
  | some .hdel => liftData (handleHdel args) s
  | some .hlen => liftData (handleHlen args) s
  | some .hkeys => liftData (handleHkeys args) s
  | some .hvals => liftData (handleHvals args) s
  | some .hgetall => liftData (handleHgetall args) s
  | some .zadd => liftData (handleZadd args) s
  | some .zrem => liftData (handleZrem args) s
  | some .zcard => liftData (handleZcard args) s
  | some .zrange => liftData (handleZrange args) s
  | some .zrevrange => liftData (handleZrevrange args) s
  | some .zscore => liftData (handleZscore now args) s
  | some .zrank => liftData (handleZrank args) s
  | some .multi => handleMulti args s
  | some .exec => handleExec now args s
  | some .discard => handleDiscard args s
  | some .expire => liftData (handleExpire now args) s
  | some .pexpire => liftData (handlePexpire now args) s
  | some .ttl => liftData (handleTtl now args) s
  | some .pttl => liftData (handlePttl now args) s
  | some .persist => liftData (handlePersist now args) s
  | some .watch => handleWatch args s
  | some .unwatch => handleUnwatch args s
  | some .subscribe => handleSubscribe args s
  | some .publish => handlePublish args s
  | some .unsubscribe => handleUnsubscribe args s
  | some .eval => handleEval env.vm now args s
  | some .evalsha => handleEvalsha env.vm now args s
  | some .script => handleScript args s
  | some .cluster => (handleCluster env.cluster args, s)
  | some .info => (handleInfo s, s)
  | none => (errReply "ERR Unknown command", s)

/-- The routed commands. -/
def Command.routed : Command → Bool
  | .set => true
  | .get => true
  | .del => true
  | .existsKey => true
  | _ => false

/-- The node a routed command is redirected to, if it is. -/
def redirect (env : Env Λ) (cmd : Option Command) (args : Args) : Option (Bytes × ClusterNode) :=
  match cmd, args with
  | some cmd, _ :: key :: _ =>
      if env.cluster.enabled ∧ cmd.routed then
        key.bulk?.bind fun key =>
          (env.cluster.getNodeForKey env.hash key).bind fun node =>
            if node.nodeId ≠ env.cluster.myNodeId then some (key, node) else none
      else none
  | _, _ => none

/-- The commands that are not routed go straight to `dispatch`. -/
theorem redirect_of_not_routed (env : Env Λ) {cmd : Option Command} (args : Args)
    (h : ∀ c, cmd = some c → c.routed = false) : redirect env cmd args = none := by
  unfold redirect
  split
  · rw [if_neg (by simp [h _ rfl])]
  · rfl

def movedReply (env : Env Λ) (key : Bytes) (node : ClusterNode) : Bytes :=
  str "-MOVED " ++ natBytes (env.cluster.hashSlot env.hash key) ++ str " " ++ node.ipAddress ++
    str ":" ++ intBytes node.port ++ crlf

def queuedReply : Bytes := str "+QUEUED\r\n"

/-- Routing, then the direct path. -/
def routeAndDispatch (env : Env Λ) (now : ℤ) (cmd : Option Command) (args : Args)
    (s : Session S Λ) : Bytes × Session S Λ :=
  match redirect env cmd args with
  | some x => (movedReply env x.1 x.2, s)
  | none => dispatch env now cmd args s

def processCommand (env : Env Λ) (now : ℤ) (command : RespValue) (s : Session S Λ) :
    Bytes × Session S Λ :=
  match command with
  | .array (.bulkString name :: rest) =>
      let args := .bulkString name :: rest
      let cmd := Command.ofName name
      if s.self.inTransaction ∧ cmd ≠ some .exec ∧ cmd ≠ some .discard then
        let tx : TransactionCommand := { commandName := name.map toupper, args := args }
        (queuedReply, { s with self :=
          { s.self with transactionQueue := s.self.transactionQueue ++ [tx] } })
      else routeAndDispatch env now cmd args s
  | .array (_ :: _) => (errReply "ERR Command name must be a bulk string", s)
  | _ => (errReply "ERR Invalid command format", s)

/-! ### The division by the slot count -/

/-- Whether `process_command` divides by the slot count: in cluster mode, for a routed command with a
bulk-string key that is not queued.  Without nodes `get_node_for_key` returns before the division. -/
def computesSlot (cfg : ClusterConfig) (inTransaction : Bool) : RespValue → Bool
  | .array (.bulkString name :: key :: _) =>
      cfg.enabled && !cfg.nodes.isEmpty && !inTransaction &&
        (Command.ofName name).any Command.routed && key.bulk?.isSome
  | _ => false

/-- `process_command` with that division: `none` where it divides by zero and the process dies, else
what `processCommand` gives. -/
def processCommand? (env : Env Λ) (now : ℤ) (command : RespValue) (s : Session S Λ) :
    Option (Bytes × Session S Λ) :=
  if computesSlot env.cluster s.self.inTransaction command = true ∧ env.cluster.totalSlots = 0 then none
  else some (processCommand env now command s)

theorem processCommand?_eq_some {env : Env Λ} (now : ℤ) {command : RespValue} {s : Session S Λ}
    (h : computesSlot env.cluster s.self.inTransaction command = true → env.cluster.totalSlots ≠ 0) :
    processCommand? env now command s = some (processCommand env now command s) :=
  if_neg fun hzero => h hzero.1 hzero.2

theorem redirect_of_not_computesSlot (env : Env Λ) {name : Bytes} {rest : List RespValue}
    (h : computesSlot env.cluster false (.array (.bulkString name :: rest)) = false) :
    redirect env (Command.ofName name) (.bulkString name :: rest) = none := by
  cases hcmd : Command.ofName name with
  | none => rfl
  | some cmd =>
    cases rest with
    | nil => rfl
    | cons key more =>
      unfold redirect
      simp only
      split
      · rename_i hroute
        simp only [computesSlot, hcmd, hroute.1, hroute.2, Option.any_some, Bool.true_and,
          Bool.and_true, Bool.not_false, Bool.and_eq_false_iff, Bool.not_eq_false'] at h
        rcases h with hnodes | hkey
        · have hempty : env.cluster.nodes = [] := List.isEmpty_iff.mp hnodes
          cases key.bulk? with
          | none => rfl
          | some key => simp [ClusterConfig.getNodeForKey, hempty]
        · cases hbulk : key.bulk? with
          | none => rfl
          | some key => rw [hbulk] at hkey; cases hkey
      · rfl

/-- Elsewhere the hash plays no part: `computesSlot` misses no division. -/
theorem processCommand_of_not_computesSlot {env : Env Λ} (now : ℤ) {command : RespValue}
    {s : Session S Λ} (h : computesSlot env.cluster s.self.inTransaction command = false)
    (hash : Bytes → UInt64) :
    processCommand { env with hash := hash } now command s = processCommand env now command s := by
  have hdispatch : ∀ cmd args, dispatch { env with hash := hash } now cmd args s =
      dispatch env now cmd args s := by
    intro cmd args
    cases cmd with
    | none => rfl
    | some cmd => cases cmd <;> rfl
  unfold processCommand
  split
  · rename_i name rest
    simp only
    split
    · rfl
    · rename_i hqueued
      have hroute : ∀ env' : Env Λ, env'.cluster = env.cluster →
          redirect env' (Command.ofName name) (.bulkString name :: rest) = none := by
        intro env' hcluster
        cases hopen : s.self.inTransaction with
        | false =>
          rw [hopen, ← hcluster] at h
          exact redirect_of_not_computesSlot env' h
        | true =>
          -- only `EXEC` and `DISCARD` come here
          apply redirect_of_not_routed
          intro c hc
          rw [hc, hopen] at hqueued
          cases c <;> first | rfl | exact absurd ⟨rfl, by decide, by decide⟩ hqueued
      rw [routeAndDispatch, hroute { env with hash := hash } rfl, routeAndDispatch, hroute env rfl]
      exact hdispatch _ _
  · rfl
  · rfl

end MinimalRedis
