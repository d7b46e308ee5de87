import MinimalRedis.DataPrograms

/-!
# The programs of the commands on the data, run by themselves

* `run_popProg`, `run_hsetLoopProg`, `run_countedProg` — the common parts;
* `run_keyProg`, `run_twoProg`, … — a program behind each of the argument checks;
* `run_dataProg` — run by itself the program is the handler, reply and data.
-/

namespace MinimalRedis

open Lib

variable {S : Type} [Score S] {Λ : Type}

theorem run_countedProg (key : Bytes) (count : Bool) (reply : Bytes) (now : ℤ) (d : Data S) :
    (countedProg key count reply).run now d =
      (reply, if count then Database.incrementModCount key d else d) := by
  cases count <;> rfl

theorem run_popProg (now : ℤ) (key : Bytes) (popped : Bytes × Data S) :
    (popProg key popped.1).run now popped.2 = popReply now key popped := by
  unfold popProg popReply
  rw [Prog.run_ite]
  congr 1
  show Prog.run now (if !(Database.keyExists now key popped.2).1 then _ else _) _ = _
  rw [Prog.run_ite]
  rfl

theorem run_hsetLoopProg (key : Bytes) (vs : List RespValue) (fieldsSet : ℕ) (now : ℤ)
    (d : Data S) : (hsetLoopProg key vs fieldsSet).run now d = hsetLoop key vs fieldsSet d := by
  fun_induction hsetLoop key vs fieldsSet d with
  | case1 field value rest fieldsSet d f v hv hf ih =>
    rw [hsetLoopProg, hf, hv]
    exact ih
  | case2 field value rest fieldsSet d hbad =>
    rw [hsetLoopProg]
    split
    · rename_i f v hf hv
      exact (hbad f v hf hv).elim
    · rfl
  | case3 vs fieldsSet d hshort =>
    unfold hsetLoopProg
    split
    · exact (hshort _ _ _ rfl).elim
    · rfl

section Refinement

variable (now : ℤ) (args : Args) (d : Data S)

theorem run_getProg : (dataProg true .get args).run now d = handleGet now args d := by
  refine run_guarded withKey_of_none fun key hkey => ?_
  refine (withKey_of_some hkey).trans (Eq.symm ?_)
  show Prog.run now (if !(Database.keyExists now key d).1 then _ else _) _ = _
  rw [Prog.run_ite]
  congr 1
  show Prog.run now (if (Database.type now key (Database.keyExists now key d).2).1 ≠ .string
    then _ else _) _ = _
  rw [Prog.run_ite]
  rfl

theorem run_delProg : (dataProg true .del args).run now d = handleDel now args d := by
  refine run_guarded withKey_of_none fun key hkey => ?_
  refine (withKey_of_some hkey).trans (Eq.symm ?_)
  show Prog.run now (if (Database.keyExists now key d).1 then _ else _) _ = _
  rw [Prog.run_ite]
  simp only
  cases (Database.keyExists now key d).1 <;> rfl

theorem run_typeProg : (dataProg true .type args).run now d = handleType now args d := by
  refine run_guarded withKey_of_none fun key hkey => ?_
  refine (withKey_of_some hkey).trans (Eq.symm ?_)
  show Prog.run now (if !(Database.keyExists now key d).1 then _ else _) _ = _
  rw [Prog.run_ite]
  rfl

theorem run_lindexProg : (dataProg true .lindex args).run now d = handleLindex now args d := by
  refine run_guarded (fun hnone => ?_) fun x hx => ?_
  · unfold handleLindex
    split
    · rename_i name key index
      cases hkey : key.bulk? with
      | none => rfl
      | some k =>
        cases hindex : stoi index.strVal with
        | none => rfl
        | some i => simp [indexArgs?, hkey, hindex] at hnone
    · rfl
  · unfold indexArgs? at hx
    split at hx
    · obtain ⟨key, hkey, hx⟩ := Option.bind_eq_some_iff.mp hx
      obtain ⟨index, hindex, rfl⟩ := Option.map_eq_some_iff.mp hx
      simp only [handleLindex, hkey, hindex]
      refine Eq.symm ?_
      show Prog.run now (if Database.lindex key index d = [] then _ else _) _ = _
      rw [Prog.run_ite]
      rfl
    · cases hx

theorem pairsKey?_eq_none {args : Args} (h : pairsKey? args = none) :
    (args.length < 4 ∨ args.length % 2 ≠ 0) ∨ (args.getD 1 default).bulk? = none := by
  unfold pairsKey? at h
  split at h
  · rename_i harity
    exact .inl harity
  · exact .inr h

theorem run_hsetProg : (dataProg true .hset args).run now d = handleHset args d := by
  refine run_guarded (fun hnone => ?_) fun key hkey => ?_
  · unfold handleHset
    split
    · rfl
    · rename_i harity
      rw [(pairsKey?_eq_none hnone).resolve_left harity]
  · unfold pairsKey? at hkey
    split at hkey
    · cases hkey
    · rename_i harity
      have hloop := run_hsetLoopProg key (args.drop 2) 0 now d
      rw [handleHset, if_neg harity, hkey]
      refine Eq.trans ?_ (Prog.run_bind now (hsetLoopProg key (args.drop 2) 0) _ d).symm
      rw [hloop]
      simp only
      split
      · rename_i d' hd'
        rw [hd']
        rfl
      · rename_i n d' hd'
        rw [hd']
        refine Eq.trans ?_ (run_countedProg key (n > 0) (intReply n) now d').symm
        simp only [decide_eq_true_eq]

theorem run_zaddProg : (dataProg true .zadd args).run now d = handleZadd args d := by
  refine run_guarded (fun hnone => ?_) fun x hx => ?_
  · unfold handleZadd
    split
    · rfl
    · rename_i harity
      cases hkey : (args.getD 1 default).bulk? with
      | none => rfl
      | some key =>
        cases hpairs : (zaddPairs (args.drop 2) : Except String (List (S × Bytes))) with
        | error msg => rfl
        | ok ps =>
          rw [zaddArgs?, pairsKey?, if_neg harity, hkey, Option.bind_some, hpairs] at hnone
          cases hnone
  · obtain ⟨key, hkey, hx⟩ := Option.bind_eq_some_iff.mp hx
    obtain ⟨ps, hps, rfl⟩ := Option.map_eq_some_iff.mp hx
    unfold pairsKey? at hkey
    split at hkey
    · cases hkey
    · rename_i harity
      have hpairs : zaddPairs (args.drop 2) = .ok ps := by
        cases hparsed : (zaddPairs (args.drop 2) : Except String (List (S × Bytes))) with
        | error msg =>
          rw [hparsed] at hps
          cases hps
        | ok qs =>
          rw [hparsed] at hps
          rw [Option.some.inj hps]
      rw [handleZadd, if_neg harity, hkey]
      simp only [hpairs]
      exact (run_countedProg key _ _ now _).symm

theorem run_hgetProg : (dataProg true .hget args).run now d = handleHget now args d := by
  refine run_guarded withTwo_of_none fun x hx => ?_
  refine (withTwo_of_some hx).trans (Eq.symm ?_)
  show Prog.run now (if Database.hget x.1 x.2 d = [] then _ else _) _ = _
  rw [Prog.run_ite]
  congr 1
  show Prog.run now (if (Database.keyExists now x.1 d).1 then _ else _) _ = _
  rw [Prog.run_ite]
  simp only
  cases (Database.keyExists now x.1 d).1 <;> rfl

theorem run_zscoreProg : (dataProg true .zscore args).run now d = handleZscore now args d := by
  refine run_guarded withTwo_of_none fun x hx => ?_
  refine (withTwo_of_some hx).trans (Eq.symm ?_)
  show Prog.run now (if Database.zscore x.1 x.2 d = 0 then _ else _) _ = _
  rw [Prog.run_ite]
  congr 1
  show Prog.run now (if !(Database.keyExists now x.1 d).1 then _ else _) _ = _
  rw [Prog.run_ite]
  simp only
  cases (Database.keyExists now x.1 d).1 with
  | false => rfl
  | true =>
    show Prog.run now (if Database.zcard x.1 (Database.keyExists now x.1 d).2 == 0 then _ else _) _ = _
    rw [Prog.run_ite]
    simp only [Bool.not_true, Bool.false_or]
    rfl

theorem run_zrankProg : (dataProg true .zrank args).run now d = handleZrank args d := by
  refine run_guarded withTwo_of_none fun x hx => ?_
  refine (withTwo_of_some hx).trans (Eq.symm ?_)
  show Prog.run now (if Database.zrank x.1 x.2 d < 0 then _ else _) _ = _
  rw [Prog.run_ite]
  rfl

/-- The handlers with one key and no branch. -/
theorem run_keyProg {arity notBulk : String} {run run' : Bytes → Data S → Bytes × Data S}
    {body : Bytes → DataProg S Bytes} (hbody : ∀ key, (body key).run now d = run key d) :
    (guarded (keyArg? args) (withKey arity notBulk run' args ∅).1 body).run now d =
      withKey arity notBulk run args d :=
  run_guarded withKey_of_none fun key hkey => (withKey_of_some hkey).trans (hbody key).symm

theorem run_twoProg {arity notBulk : String} {run run' : Bytes → Bytes → Data S → Bytes × Data S}
    {body : Bytes × Bytes → DataProg S Bytes} (hbody : ∀ x, (body x).run now d = run x.1 x.2 d) :
    (guarded (twoArgs? args) (withTwo arity notBulk run' args ∅).1 body).run now d =
      withTwo arity notBulk run args d :=
  run_guarded withTwo_of_none fun x hx => (withTwo_of_some hx).trans (hbody x).symm

theorem run_restProg {arity notBulkKey notBulkRest : String}
    {run run' : Bytes → List Bytes → Data S → Bytes × Data S}
    {body : Bytes × List Bytes → DataProg S Bytes} (hbody : ∀ x, (body x).run now d = run x.1 x.2 d) :
    (guarded (keyAndRest? args) (withKeyAndRest arity notBulkKey notBulkRest run' args ∅).1
      body).run now d = withKeyAndRest arity notBulkKey notBulkRest run args d :=
  run_guarded withKeyAndRest_of_none fun x hx => (withKeyAndRest_of_some hx).trans (hbody x).symm

theorem run_keysProg {arity notBulk : String} {read read' : List Bytes → Data S → Bytes}
    {body : List Bytes → DataProg S Bytes} (hbody : ∀ keys, (body keys).run now d = (read keys d, d)) :
    (guarded (keyArgs? args) (withKeys arity notBulk read' args ∅).1 body).run now d =
      withKeys arity notBulk read args d :=
  run_guarded withKeys_of_none fun keys hkeys => (withKeys_of_some hkeys).trans (hbody keys).symm

theorem run_rangeProg {accepts : ℕ → Bool} {arity notBulk notInt : String}
    {read read' : Bytes → ℤ → ℤ → Data S → Bytes} {body : Bytes × ℤ × ℤ → DataProg S Bytes}
    (hbody : ∀ x, (body x).run now d = (read x.1 x.2.1 x.2.2 d, d)) :
    (guarded (rangeArgs? accepts args) (withRange accepts arity notBulk notInt read' args ∅).1
      body).run now d = withRange accepts arity notBulk notInt read args d :=
  run_guarded withRange_of_none fun x hx => (withRange_of_some hx).trans (hbody x).symm

theorem run_durationProg {arity notBulk notInt : String}
    {run run' : Bytes → ℤ → Data S → Bytes × Data S} {body : Bytes × ℤ → DataProg S Bytes}
    (hbody : ∀ x, (body x).run now d = run x.1 x.2 d) :
    (guarded (durationArgs? args) (withDuration arity notBulk notInt run' args ∅).1
      body).run now d = withDuration arity notBulk notInt run args d :=
  run_guarded withDuration_of_none fun x hx => (withDuration_of_some hx).trans (hbody x).symm

end Refinement

/-- Run by itself, the program of a command on the data is its handler. -/
theorem run_dataProg (env : Env Λ) (now : ℤ) {cmd : Command} (hcmd : cmd.onData = true) (args : Args)
    (s : Session S Λ) :
    (dataProg s.world.fileWritable cmd args).run now s.world.data =
      ((dispatch env now (some cmd) args s).1, (dispatch env now (some cmd) args s).2.world.data) := by
  cases cmd with
  | set =>
    show _ = handleSet args s.world.data
    exact run_twoProg now args _ fun _ => rfl
  | get => exact run_getProg now args _
  | del => exact run_delProg now args _
  | existsKey =>
    show _ = handleExists now args s.world.data
    exact run_keyProg now args _ fun _ => rfl
  | keys =>
    show (dataProg _ .keys args).run now s.world.data = handleKeys args s.world.data
    by_cases hargs : args.length = 1
    · simp only [dataProg, hargs, if_true, guarded, handleKeys]
      rfl
    · simp only [dataProg, hargs, if_false, guarded, handleKeys, ne_eq, not_false_eq_true, if_true]
      rfl
  | save =>
    show (dataProg _ .save args).run now s.world.data =
      ((handleSave args s).1, (handleSave args s).2.world.data)
    by_cases hargs : args.length = 1
    · simp only [dataProg, hargs, if_true, guarded, handleSave]
      cases s.world.fileWritable <;> rfl
    · simp only [dataProg, hargs, if_false, guarded, handleSave, ne_eq, not_false_eq_true, if_true]
      rfl
  | type => exact run_typeProg now args _
  | lpush =>
    show _ = handleLpush args s.world.data
    exact run_restProg now args _ fun _ => rfl
  | rpush =>
    show _ = handleRpush args s.world.data
    exact run_restProg now args _ fun _ => rfl
  | lpop =>
    show _ = handleLpop now args s.world.data
    exact run_keyProg now args _ fun key => run_popProg now key _
  | rpop =>
    show _ = handleRpop now args s.world.data
    exact run_keyProg now args _ fun key => run_popProg now key _
  | llen =>
    show _ = handleLlen now args s.world.data
    exact run_keyProg now args _ fun _ => rfl
  | lrange =>
    show _ = handleLrange args s.world.data
    exact run_rangeProg now args _ fun _ => rfl
  | lindex => exact run_lindexProg now args _
  | sadd =>
    show _ = handleSadd args s.world.data
    refine run_restProg now args _ fun x => (run_countedProg _ _ _ now _).trans ?_
    simp only [decide_eq_true_eq]
  | srem =>
    show _ = handleSrem args s.world.data
    refine run_restProg now args _ fun x => (run_countedProg _ _ _ now _).trans ?_
    simp only [decide_eq_true_eq]
  | sismember =>
    show _ = handleSismember args s.world.data
    exact run_twoProg now args _ fun _ => rfl
  | scard =>
    show _ = handleScard args s.world.data
    exact run_keyProg now args _ fun _ => rfl
  | smembers =>
    show _ = handleSmembers args s.world.data
    exact run_keyProg now args _ fun _ => rfl
  | sinter =>
    show _ = handleSinter args s.world.data
    exact run_keysProg now args _ fun _ => rfl
  | sunion =>
    show _ = handleSunion args s.world.data
    exact run_keysProg now args _ fun _ => rfl
  | sdiff =>
    show _ = handleSdiff args s.world.data
    exact run_keysProg now args _ fun _ => rfl
  | hset => exact run_hsetProg now args _
  | hget => exact run_hgetProg now args _
  | hdel =>
    show _ = handleHdel args s.world.data
    exact run_restProg now args _ fun _ => run_countedProg _ _ _ now _
  | hlen =>
    show _ = handleHlen args s.world.data
    exact run_keyProg now args _ fun _ => rfl
  | hkeys =>
    show _ = handleHkeys args s.world.data
    exact run_keyProg now args _ fun _ => rfl
  | hvals =>
    show _ = handleHvals args s.world.data
    exact run_keyProg now args _ fun _ => rfl
  | hgetall =>
    show _ = handleHgetall args s.world.data
    exact run_keyProg now args _ fun _ => rfl
  | zadd => exact run_zaddProg now args _
  | zrem =>
    show _ = handleZrem args s.world.data
    exact run_restProg now args _ fun _ => run_countedProg _ _ _ now _
  | zcard =>
    show _ = handleZcard args s.world.data
    exact run_keyProg now args _ fun _ => rfl
  | zrange =>
    show _ = handleZrange args s.world.data
    exact run_rangeProg now args _ fun _ => rfl
  | zrevrange =>
    show _ = handleZrevrange args s.world.data
    exact run_rangeProg now args _ fun _ => rfl
  | zscore => exact run_zscoreProg now args _
  | zrank => exact run_zrankProg now args _
  | expire =>
    show _ = handleExpire now args s.world.data
    exact run_durationProg now args _ fun _ => run_countedProg _ _ _ now _
  | pexpire =>
    show _ = handlePexpire now args s.world.data
    exact run_durationProg now args _ fun _ => run_countedProg _ _ _ now _
  | ttl =>
    show _ = handleTtl now args s.world.data
    exact run_keyProg now args _ fun _ => rfl
  | pttl =>
    show _ = handlePttl now args s.world.data
    exact run_keyProg now args _ fun _ => rfl
  | persist =>
    show _ = handlePersist now args s.world.data
    exact run_keyProg now args _ fun _ => run_countedProg _ _ _ now _
  | _ => cases hcmd

end MinimalRedis
