import MinimalRedis.TransactionRuns

/-!
# The script cache over whole runs

Every client has an engine with a cache of its own, keyed by what `calculate_sha1` returns: the
hexadecimal text of a **64-bit multiply-by-31 hash**.  A later `SCRIPT LOAD` overwrites an equal key.

* `scriptCache_run` — over every run, the cache is what the client's executed loads and flushes make
  of it;
* `evalsha_runs_loaded_iff` — `EVALSHA` runs the loaded scripts, and their digests differ, exactly when
  their hashes do.
-/

namespace MinimalRedis

open Lib Session LuaScriptingEngine

variable {S : Type} [Score S] {Λ : Type}

/-! ### Digests -/

/-- The hash behind the digest. -/
def scriptHash (script : Bytes) : UInt64 :=
  script.foldl (fun hash c => hash * 31 + charToSize c) 0

def unhexDigit (b : UInt8) : ℕ := if b < 58 then b.toNat - 48 else b.toNat - 87

theorem unhexDigit_hexDigit {n : ℕ} (h : n < 16) : unhexDigit (hexDigit n) = n := by
  have hall : ∀ n : Fin 16, unhexDigit (hexDigit n) = n := by decide
  exact hall ⟨n, h⟩

theorem map_unhexDigit_digits (n : ℕ) :
    ((Nat.digits 16 n).map hexDigit).map unhexDigit = Nat.digits 16 n := by
  rw [List.map_map]
  refine (List.map_congr_left fun d hd => ?_).trans (List.map_id _)
  exact unhexDigit_hexDigit (Nat.digits_lt_base (by norm_num) hd)

/-- The digits can be read back, the text of zero being the digit itself. -/
theorem ofDigits_hexBytes (n : ℕ) : Nat.ofDigits 16 ((hexBytes n).reverse.map unhexDigit) = n := by
  unfold hexBytes
  split
  · rename_i hzero
    rw [hzero]
    decide
  · rw [List.reverse_reverse, map_unhexDigit_digits, Nat.ofDigits_digits]

theorem calculateSha1_eq_iff {s t : Bytes} :
    calculateSha1 s = calculateSha1 t ↔ scriptHash s = scriptHash t := by
  constructor
  · intro h
    replace h : hexBytes (scriptHash s).toNat = hexBytes (scriptHash t).toNat := h
    apply UInt64.toNat_inj.mp
    rw [← ofDigits_hexBytes (scriptHash s).toNat, h, ofDigits_hexBytes]
  · intro h
    show hexBytes (scriptHash s).toNat = hexBytes (scriptHash t).toNat
    rw [h]

/-! ### What a command does to the cache -/

/-- What an executed `SCRIPT` does to the cache. -/
inductive ScriptOp where
  | load (script : Bytes)
  | flush
deriving DecidableEq

def ScriptOp.apply (cache : UMap Bytes Bytes) : ScriptOp → UMap Bytes Bytes
  | load script => cache.set (calculateSha1 script) script
  | flush => ∅

/-- A load of a script that `validate_script` refuses stores nothing. -/
def scriptOp? (args : Args) : Option ScriptOp :=
  match args with
  | _ :: .bulkString subcmd :: rest =>
      if subcmd = str "LOAD" then
        match allBulk rest with
        | some [script] => if validateScript script then some (.load script) else none
        | _ => none
      else if subcmd = str "FLUSH" then some .flush else none
  | _ => none

/-- In a transaction nothing is executed: a queued `SCRIPT` is an unknown command. -/
def Processor.scriptOp? (command : RespValue) (p : Processor Λ) : Option ScriptOp :=
  if p.inTransaction = false ∧ command.command? = some .script then MinimalRedis.scriptOp? command.args
  else none

/-- The cache after an optional operation. -/
def cacheAfter (cache : UMap Bytes Bytes) (op : Option ScriptOp) : UMap Bytes Bytes :=
  op.elim cache (ScriptOp.apply cache)

theorem scriptCache_handleScript (args : Args) (s : Session S Λ) :
    (handleScript args s).2.self.engine.scriptCache =
      cacheAfter s.self.engine.scriptCache (scriptOp? args) := by
  unfold handleScript
  split
  · rename_i name subcmd rest
    cases hsub : subcmd.bulk? with
    | none => cases subcmd <;> first | rfl | cases hsub
    | some sub =>
      obtain rfl := bulk?_eq_some hsub
      simp only [scriptOp?]
      by_cases hload : sub = str "LOAD"
      · rw [if_pos hload, if_pos hload]
        rcases allBulk rest with _ | _ | ⟨script, _ | ⟨script', more⟩⟩
        · rfl
        · rfl
        · simp only [scriptLoad]
          cases validateScript script <;> rfl
        · rfl
      · rw [if_neg hload, if_neg hload]
        by_cases hexists : sub = str "EXISTS"
        · have hflush : sub ≠ str "FLUSH" := by
            rw [hexists]
            decide
          rw [if_pos hexists, if_neg hflush]
          split <;> rfl
        · rw [if_neg hexists]
          by_cases hflush : sub = str "FLUSH"
          · rw [if_pos hflush, if_pos hflush]
            rfl
          · rw [if_neg hflush, if_neg hflush]
            rfl
  · rename_i hshape
    have hnone : scriptOp? args = none := by
      unfold scriptOp?
      split
      · rename_i name subcmd rest
        exact absurd rfl (hshape name (.bulkString subcmd) rest)
      · rfl
    rw [hnone]
    rfl

section Commands

variable {env : Env Λ} {now : ℤ} {s : Session S Λ}

theorem engine_executeFunc (env : Env Λ) (now : ℤ) (tx : TransactionCommand) (s : Session S Λ) :
    (executeFunc now tx s).2.self.engine.scriptCache = s.self.engine.scriptCache := by
  rw [executeFunc_eq_dispatch env]
  have hcontrol : ∀ c, queuedCommand tx = some c → c.isControl = false := by
    intro c hc
    by_contra hctl
    exact queuedCommand_ne (by simp [hctl]) hc
  obtain ⟨engine, hself, hcache⟩ := self_dispatch env now hcontrol tx.args s
  rw [hself]
  exact hcache (queuedCommand_ne (by decide))

theorem engine_execLoop (env : Env Λ) (now : ℤ) (queue : List TransactionCommand)
    (s : Session S Λ) :
    (execLoop now queue s).2.self.engine.scriptCache = s.self.engine.scriptCache := by
  induction queue generalizing s with
  | nil => rfl
  | cons tx queue ih =>
    show (execLoop now queue (executeFunc now tx s).2).2.self.engine.scriptCache = _
    rw [ih, engine_executeFunc env]

/-- Every command but `SCRIPT` leaves the cache alone. -/
theorem scriptCache_dispatch {cmd : Option Command} (hscript : cmd ≠ some .script) (args : Args) :
    (dispatch env now cmd args s).2.self.engine.scriptCache = s.self.engine.scriptCache := by
  by_cases hcontrol : ∀ c, cmd = some c → c.isControl = false
  · obtain ⟨engine, hself, hcache⟩ := self_dispatch env now hcontrol args s
    rw [hself]
    exact hcache hscript
  · obtain ⟨c, hc⟩ := not_forall.mp hcontrol
    obtain ⟨rfl, hkind⟩ := Classical.not_imp.mp hc
    cases c with
    | exec =>
      show (handleExec now args s).2.self.engine.scriptCache = _
      rcases handleExec_cases now args s with ⟨-, -, hs⟩ | ⟨-, hs⟩ | hs
      · rw [hs]
      · rw [hs]
        rfl
      · rw [hs]
        exact engine_execLoop env now _ s
    | multi =>
      show (handleMulti args s).2.self.engine.scriptCache = _
      unfold handleMulti
      split
      · rfl
      · split <;> rfl
    | discard =>
      show (handleDiscard args s).2.self.engine.scriptCache = _
      unfold handleDiscard
      split
      · rfl
      · split <;> rfl
    | watch =>
      show (handleWatch args s).2.self.engine.scriptCache = _
      unfold handleWatch
      split
      · rfl
      · split <;> rfl
    | unwatch =>
      show (handleUnwatch args s).2.self.engine.scriptCache = _
      unfold handleUnwatch
      split <;> rfl
    | _ => exact absurd rfl hkind

theorem scriptCache_processCommand (env : Env Λ) (now : ℤ) (command : RespValue)
    (s : Session S Λ) :
    (processCommand env now command s).2.self.engine.scriptCache =
      cacheAfter s.self.engine.scriptCache (s.self.scriptOp? command) := by
  by_cases hdirect : s.self.inTransaction = false ∧ command.command? = some .script
  · rw [processCommand_direct env now hdirect.2 rfl (.inl hdirect.1), Processor.scriptOp?,
      if_pos hdirect]
    exact scriptCache_handleScript command.args s
  · rw [Processor.scriptOp?, if_neg hdirect]
    show _ = s.self.engine.scriptCache
    unfold processCommand
    split
    · rename_i name rest
      dsimp only
      split
      · rfl
      · rename_i hqueue
        unfold routeAndDispatch
        split
        · rfl
        · apply scriptCache_dispatch
          intro hname
          refine hdirect ⟨?_, hname⟩
          by_contra hin
          exact hqueue ⟨by simpa using hin, by rw [hname]; decide, by rw [hname]; decide⟩
    · rfl
    · rfl

end Commands

/-! ### Runs -/

/-- What client `A` has its engine load and flush in a run. -/
def System.scriptOps (env : Env Λ) (A : ℕ) : List Request → System S Λ → List ScriptOp
  | [], _ => []
  | r :: rs, sys =>
      (if r.client = A then ((sys.clients A).scriptOp? r.command).toList else []) ++
        scriptOps env A rs (sys.step env r).2

section Runs

variable {env : Env Λ} {A : ℕ} {sys : System S Λ}

theorem scriptOps_append (rs rs' : List Request) (sys : System S Λ) :
    System.scriptOps env A (rs ++ rs') sys =
      System.scriptOps env A rs sys ++ System.scriptOps env A rs' (sys.run env rs) := by
  induction rs generalizing sys with
  | nil => rfl
  | cons r rs ih =>
    show _ ++ System.scriptOps env A (rs ++ rs') (sys.step env r).2 = _
    rw [ih, ← List.append_assoc]
    rfl

theorem cacheAfter_eq_foldl (cache : UMap Bytes Bytes) (op : Option ScriptOp) :
    cacheAfter cache op = op.toList.foldl ScriptOp.apply cache := by
  cases op <;> rfl

/-- The step lemma: a request of `A` has its operation, one of another client none. -/
theorem scriptCache_step (env : Env Λ) (A : ℕ) (sys : System S Λ) (r : Request) :
    ((sys.step env r).2.clients A).engine.scriptCache =
      (if r.client = A then ((sys.clients A).scriptOp? r.command).toList else []).foldl
        ScriptOp.apply (sys.clients A).engine.scriptCache := by
  by_cases hA : r.client = A
  · subst hA
    rw [clients_step_self, scriptCache_processCommand, cacheAfter_eq_foldl, if_pos rfl]
    rfl
  · rw [clients_step_of_ne hA, if_neg hA]
    rfl

/-- The run lemma: the cache is what the executed loads and flushes make of it. -/
theorem scriptCache_run (env : Env Λ) (A : ℕ) (rs : List Request) (sys : System S Λ) :
    ((sys.run env rs).clients A).engine.scriptCache =
      (System.scriptOps env A rs sys).foldl ScriptOp.apply
        (sys.clients A).engine.scriptCache := by
  induction rs generalizing sys with
  | nil => rfl
  | cons r rs ih =>
    show (((sys.step env r).2.run env rs).clients A).engine.scriptCache = _
    rw [ih, scriptCache_step, System.scriptOps, List.foldl_append]

/-- A stored script stays as long as nothing is flushed and no other script has its digest. -/
theorem find?_foldl_apply {s : Bytes} {ops : List ScriptOp} {cache : UMap Bytes Bytes}
    (hflush : ScriptOp.flush ∉ ops)
    (hother : ∀ t, ScriptOp.load t ∈ ops → calculateSha1 t = calculateSha1 s → t = s)
    (hcache : cache.find? (calculateSha1 s) = some s) :
    (ops.foldl ScriptOp.apply cache).find? (calculateSha1 s) = some s := by
  induction ops generalizing cache with
  | nil => exact hcache
  | cons op ops ih =>
    refine ih (fun h => hflush (List.mem_cons_of_mem _ h))
      (fun t ht => hother t (List.mem_cons_of_mem _ ht)) ?_
    cases op with
    | flush => exact absurd List.mem_cons_self hflush
    | load t =>
      show (cache.set (calculateSha1 t) t).find? (calculateSha1 s) = some s
      by_cases heq : calculateSha1 t = calculateSha1 s
      · rw [heq, UMap.find?_set_self, hother t List.mem_cons_self heq]
      · rw [UMap.find?_set_ne _ _ (Ne.symm heq)]
        exact hcache

end Runs

/-! ### `EVALSHA` -/

/-- The request is a `SCRIPT LOAD` of `script` by client `A` that is executed at once. -/
structure LoadsScript (A : ℕ) (script : Bytes) (sys : System S Λ) (r : Request) : Prop where
  client : r.client = A
  idle : (sys.clients A).inTransaction = false
  command : r.command.command? = some .script
  args : ∃ name, r.command.args = [name, .bulkString (str "LOAD"), .bulkString script]

/-- After the run, `EVALSHA` of a digest that a `SCRIPT LOAD` replied, with no flush since, does what
`EVAL` of the loaded text does; and no two different scripts that were loaded have the same digest. -/
def EvalshaRunsLoaded (env : Env Λ) (A : ℕ) (sys : System S Λ) (rs : List Request) : Prop :=
  (∀ before load since script digest, rs = before ++ load :: since →
      LoadsScript A script (sys.run env before) load →
      ((sys.run env before).step env load).1 = 43 :: (digest ++ crlf) →
      ScriptOp.flush ∉ System.scriptOps env A since (sys.run env (before ++ [load])) →
      ∀ (now : ℤ) (keys args : List Bytes) (d : Data S),
        evalsha env.vm now digest keys args ((sys.run env rs).clients A).engine d =
          eval env.vm now script keys args ((sys.run env rs).clients A).engine d) ∧
    ∀ script script', ScriptOp.load script ∈ System.scriptOps env A rs sys →
      ScriptOp.load script' ∈ System.scriptOps env A rs sys → script ≠ script' →
        calculateSha1 script ≠ calculateSha1 script'

/-- The reply of a load that is not refused is the digest, and the script is stored. -/
theorem LoadsScript.reply {env : Env Λ} {A : ℕ} {sys : System S Λ} {r : Request}
    {script digest : Bytes} (h : LoadsScript A script sys r)
    (hreply : (sys.step env r).1 = 43 :: (digest ++ crlf)) :
    digest = calculateSha1 script ∧ (sys.clients A).scriptOp? r.command = some (.load script) := by
  obtain ⟨rfl, hidle, hcommand, name, hargs⟩ := h
  replace hreply : (processCommand env r.now r.command (sys.session r.client)).1 = _ := hreply
  rw [processCommand_direct env r.now hcommand rfl (.inl hidle), hargs] at hreply
  replace hreply : (scriptLoad script (sys.clients r.client).engine).1 = _ := hreply
  have hvalid : validateScript script = true := by
    by_contra hinvalid
    rw [scriptLoad, if_pos (by simp [hinvalid])] at hreply
    exact absurd (List.cons.inj hreply).1 (by decide)
  rw [scriptLoad, if_neg (by simp [hvalid])] at hreply
  refine ⟨(List.append_cancel_right (List.cons.inj hreply).2).symm, ?_⟩
  rw [Processor.scriptOp?, if_pos ⟨hidle, hcommand⟩, hargs]
  show (if validateScript script then some (ScriptOp.load script) else none) = _
  rw [if_pos hvalid]

/-- **`EVALSHA` runs what was loaded** exactly when no two different scripts of the run have the same
hash. -/
theorem evalsha_runs_loaded_iff (env : Env Λ) (A : ℕ) (sys : System S Λ) (rs : List Request) :
    EvalshaRunsLoaded env A sys rs ↔
      ∀ script script', ScriptOp.load script ∈ System.scriptOps env A rs sys →
        ScriptOp.load script' ∈ System.scriptOps env A rs sys →
        scriptHash script = scriptHash script' → script = script' := by
  constructor
  · intro h script script' hmem hmem' hhash
    by_contra hne
    exact h.2 script script' hmem hmem' hne (calculateSha1_eq_iff.mpr hhash)
  · intro h
    refine ⟨?_, ?_⟩
    · intro before load since script digest hrs hload hreply hflush now keys args d
      obtain ⟨rfl, hop⟩ := hload.reply hreply
      have hops : System.scriptOps env A rs sys = System.scriptOps env A before sys ++
          .load script :: System.scriptOps env A since (sys.run env (before ++ [load])) := by
        rw [hrs, scriptOps_append, System.scriptOps, if_pos hload.client, hop,
          run_append_singleton]
        rfl
      have hfind : ((sys.run env rs).clients A).engine.scriptCache.find? (calculateSha1 script) =
          some script := by
        rw [scriptCache_run, hops, List.foldl_append, List.foldl_cons]
        apply find?_foldl_apply hflush
        · intro t ht hdigest
          apply h
          · rw [hops]
            exact List.mem_append_right _ (List.mem_cons_of_mem _ ht)
          · rw [hops]
            exact List.mem_append_right _ List.mem_cons_self
          · exact calculateSha1_eq_iff.mp hdigest
        · exact UMap.find?_set_self _ _ _
      rw [evalsha, hfind]
    · intro script script' hmem hmem' hne hdigest
      exact hne (h script script' hmem hmem' (calculateSha1_eq_iff.mp hdigest))

/-- An interpreter for scripts of the form `return '…'`. -/
def Env.literals : Env Unit where
  cluster := {}
  hash _ := 0
  vm :=
    { load := fun _ _ => none
      run := fun state script _ _ => .done state (.string (script.drop 8).dropLast) }

/-- `Aa` and `BB` have the same hash: the second script runs under the digest of the first. -/
theorem evalsha_runs_other_script :
    let sys : System NatScore Unit := .fresh ∅
    let load := fun script => request 0 ["SCRIPT", "LOAD", script]
    let rs := [load "return 'Aa'", load "return 'BB'"]
    let engine := ((sys.run .literals rs).clients 0).engine
    let digest := calculateSha1 (str "return 'Aa'")
    (sys.step .literals (load "return 'Aa'")).1 = 43 :: (digest ++ crlf) ∧
      (evalsha Env.literals.vm 0 digest [] [] engine (∅ : Data NatScore)).map Prod.fst =
        some (str "+BB\r\n") ∧
      (eval Env.literals.vm 0 (str "return 'Aa'") [] [] engine (∅ : Data NatScore)).map Prod.fst =
        some (str "+Aa\r\n") ∧
      ¬ EvalshaRunsLoaded .literals 0 sys rs := by
  intro sys load rs engine digest
  refine ⟨by decide, by decide, by decide, ?_⟩
  rw [evalsha_runs_loaded_iff]
  intro h
  exact absurd (h (str "return 'Aa'") (str "return 'BB'") (by decide) (by decide) (by decide))
    (by decide)

end MinimalRedis
