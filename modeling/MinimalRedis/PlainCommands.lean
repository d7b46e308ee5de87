import MinimalRedis.Lib.Linearize
import MinimalRedis.Counts
import MinimalRedis.Footprints
import MinimalRedis.ScriptCalls
import MinimalRedis.TypeChange

/-!
# Plain commands

A handler makes several `Database` calls, and between two of them the other clients make theirs.  For
most commands nobody can tell, as long as nothing takes keys away: a write takes effect in its first
call, the counter that it raises behind that shows in no reply; a reader that looks twice finds at the
second look what it found at the first.

* `Settled` — no entry expires, and every key has the type that its writers give it;
* `observer` — what another client can tell: keys that are there stay there, counters are not seen;
* `blind_dataProg` — no call of a plain command sees a counter;
* `linear_dataProg` — under any schedule a plain command has one call in which it takes effect.
-/

namespace MinimalRedis

open Lib

variable {S : Type} [Score S] {Λ : Type}

/-! ### What can be seen -/

/-- The data without the modification counters, which no reply of a data command shows. -/
def uncounted (d : Data S) : Data S := d.mapValues RedisValue.uncounted

/-- No entry expires, and the entry of a key has the type that `Γ` says. -/
def Settled (Γ : Bytes → RedisType) (d : Data S) : Prop :=
  ∀ key v, d.find? key = some v → v.expiryTime = 0 ∧ v.type = Γ key

/-- Keys that are there stay there, and the counters are not seen. -/
def observer (S : Type) [Score S] (Γ : Bytes → RedisType) : Observer (Data S) where
  Inv := Settled Γ
  Le d d' := ∀ key, (d.find? key).isSome = true → (d'.find? key).isSome = true
  Same d d' := uncounted d = uncounted d'
  le_refl _ _ h := h
  le_trans h h' key hkey := h' key (h key hkey)
  same_equiv := ⟨fun _ => rfl, Eq.symm, Eq.trans⟩

variable {α β : Type} {Γ : Bytes → RedisType} {key : Bytes} {now : ℤ} {d d' : Data S}

theorem find?_uncounted (d : Data S) (key : Bytes) :
    (uncounted d).find? key = (d.find? key).map RedisValue.uncounted := UMap.find?_mapValues ..

theorem uncounted_set (d : Data S) (key : Bytes) (v : RedisValue S) :
    uncounted (d.set key v) = (uncounted d).set key v.uncounted := UMap.mapValues_set ..

theorem uncounted_erase (d : Data S) (key : Bytes) :
    uncounted (d.erase key) = (uncounted d).erase key := UMap.mapValues_erase ..

/-! ### Calls that do not see the counters -/

section Blind

/-- The operation sees the data without the counters only. -/
def Uncounting (m : Data S → α × Data S) : Prop :=
  ∀ d, m (uncounted d) = ((m d).1, uncounted (m d).2)

theorem Uncounting.blind {m : Data S → α × Data S} (h : Uncounting m) : (observer S Γ).Blind m := by
  intro d d' hsame
  have hrun : m (uncounted d) = m (uncounted d') := congrArg m hsame
  rw [h d, h d'] at hrun
  obtain ⟨hresult, hstate⟩ := Prod.mk.inj hrun
  exact ⟨hresult, hstate⟩

theorem uncounting_readTyped (key : Bytes) (type : RedisType) (absent : α) (read : RedisValue S → α)
    (hread : ∀ v, read v.uncounted = read v) :
    Uncounting fun d => (Database.readTyped type absent read key d, d) := by
  intro d
  show (Database.readTyped type absent read key (uncounted d), uncounted d) =
    (Database.readTyped type absent read key d, uncounted d)
  rw [Database.readTyped, Database.readTyped, find?_uncounted]
  cases d.find? key with
  | none => rfl
  | some v =>
    show (if v.type = type then read v.uncounted else absent, _) = _
    rw [hread]

theorem uncounting_updateTyped (type : RedisType) (absent : α)
    (update : RedisValue S → α × RedisValue S)
    (hupdate : ∀ v, update v.uncounted = ((update v).1, (update v).2.uncounted)) :
    Uncounting (Database.updateTyped type absent update key) := by
  intro d
  unfold Database.updateTyped
  rw [find?_uncounted]
  cases d.find? key with
  | none => rfl
  | some v =>
    simp only [Option.map_some, hupdate, ← uncounted_set]
    show (if v.type = type then _ else _) = _
    split <;> rfl

theorem uncounting_ifTypedLive (type : RedisType) (absent : α) (live : RedisValue S → α)
    (hlive : ∀ v, live v.uncounted = live v) :
    Uncounting (Database.ifTypedLive now type absent live key) := by
  intro d
  unfold Database.ifTypedLive
  rw [find?_uncounted]
  cases d.find? key with
  | none => rfl
  | some v =>
    simp only [Option.map_some, hlive, ← uncounted_erase]
    show (if v.type = type then if v.isExpired now = true then _ else _ else _) = _
    split
    · split <;> rfl
    · rfl

theorem uncounting_ifLive {absent : α} {live : RedisValue S → Data S → α × Data S}
    (hlive : ∀ v d, live v.uncounted (uncounted d) = ((live v d).1, uncounted (live v d).2)) :
    Uncounting fun d => Database.ifLive now absent (fun v => live v d) key d := by
  intro d
  simp only [Database.ifLive, find?_uncounted]
  cases d.find? key with
  | none => rfl
  | some v =>
    simp only [Option.map_some, hlive, ← uncounted_erase]
    show (if v.isExpired now = true then _ else _) = _
    split <;> rfl

theorem find?_getD_uncounted (d : Data S) (key : Bytes) :
    ((uncounted d).find? key).getD default = ((d.find? key).getD default).uncounted := by
  rw [find?_uncounted]
  cases d.find? key <;> rfl

theorem uncounted_writeThrough {write : RedisValue S → RedisValue S}
    (hwrite : ∀ v, write v.uncounted = (write v).uncounted) (d : Data S) :
    Database.writeThrough write key (uncounted d) = uncounted (Database.writeThrough write key d) := by
  rw [Database.writeThrough, Database.writeThrough, find?_getD_uncounted, hwrite, uncounted_set]

/-- A write whose result is read off the entry before and behind it. -/
theorem uncounting_write {write : RedisValue S → RedisValue S}
    (result : RedisValue S → RedisValue S → α)
    (hwrite : ∀ v, write v.uncounted = (write v).uncounted)
    (hresult : ∀ v w, result v.uncounted w.uncounted = result v w) :
    Uncounting fun d : Data S =>
      (result ((d.find? key).getD default)
        (((Database.writeThrough write key d).find? key).getD default),
        Database.writeThrough write key d) := by
  intro d
  simp only
  rw [uncounted_writeThrough hwrite, find?_getD_uncounted, find?_getD_uncounted, hresult]

/-- The counter of an entry that is there is not seen; an absent key gets the same entry. -/
theorem blind_increment : (observer S Γ).Blind fun d => ((), Database.incrementModCount key d) := by
  have hone : ∀ d : Data S, uncounted (Database.incrementModCount key d) =
      if (d.find? key).isSome = true then uncounted d else (uncounted d).set key {} := by
    intro d
    unfold Database.incrementModCount
    cases hv : d.find? key with
    | none => exact uncounted_set d key _
    | some v =>
      simp only [uncounted_set, Option.isSome_some, if_true]
      exact UMap.set_of_find? (by rw [find?_uncounted, hv]; rfl)
  intro d d' hsame
  refine ⟨rfl, ?_⟩
  have hpresent : (d.find? key).isSome = (d'.find? key).isSome := by
    have hfind := congrArg (fun m => (m.find? key).isSome) hsame
    simpa only [find?_uncounted, Option.isSome_map] using hfind
  show uncounted (Database.incrementModCount key d) = uncounted (Database.incrementModCount key d')
  rw [hone, hone, hpresent, show uncounted d = uncounted d' from hsame]

theorem uncounted_foldl_zaddOne (ps : List (S × Bytes)) (v : RedisValue S) :
    ps.foldl Database.zaddOne v.uncounted = (ps.foldl Database.zaddOne v).uncounted := by
  induction ps generalizing v with
  | nil => rfl
  | cons p ps ih =>
    rw [List.foldl_cons, List.foldl_cons, ← ih]
    rfl

theorem uncounted_zremOne (x : Bool × RedisValue S) (member : Bytes) :
    Database.zremOne (x.1, x.2.uncounted) member =
      ((Database.zremOne x member).1, (Database.zremOne x member).2.uncounted) := by
  cases hscore : x.2.zsetMemberToScore.find? member with
  | none => simp only [Database.zremOne, RedisValue.uncounted, hscore]
  | some score => simp only [Database.zremOne, RedisValue.uncounted, hscore]

theorem uncounted_foldl_zremOne (members : List Bytes) (x : Bool × RedisValue S) :
    members.foldl Database.zremOne (x.1, x.2.uncounted) =
      ((members.foldl Database.zremOne x).1, (members.foldl Database.zremOne x).2.uncounted) := by
  induction members generalizing x with
  | nil => rfl
  | cons member members ih => rw [List.foldl_cons, List.foldl_cons, ← ih, uncounted_zremOne]

theorem setAt_uncounted (key : Bytes) (d : Data S) :
    Database.setAt key (uncounted d) = Database.setAt key d :=
  congrArg Prod.fst (uncounting_readTyped key .set none (fun v => some v.setVal) (fun _ => rfl) d)

/-- Reads of several sets. -/
theorem uncounting_sets {read : Data S → α} (hread : ∀ {d d' : Data S},
    (∀ key, Database.setAt key d = Database.setAt key d') → read d = read d') :
    Uncounting fun d => (read d, d) := by
  intro d
  exact Prod.ext (hread fun key => setAt_uncounted key d) rfl

end Blind

/-! ### Plain commands -/

/-- The commands whose first call to take effect is the only one that shows.  `DEL` and the pops make
others find nothing; `EXPIRE` lets keys go by themselves; `ZSCORE` looks three times at what may change
in between; `SAVE` is about the file. -/
def Command.plain (cmd : Command) (args : Args) : Bool :=
  match cmd with
  | .del | .lpop | .rpop | .zscore | .expire | .pexpire | .save => false
  | .hset => decide (args.length ≤ 4)
  | cmd => cmd.onData

section Programs

variable (Γ) in
abbrev BlindProg (p : DataProg S α) : Prop := p.Blind (observer S Γ)

theorem blindProg_guarded {parsed : Option α} {refusal : Bytes} {body : α → DataProg S Bytes}
    (h : ∀ a, BlindProg Γ (body a)) : BlindProg Γ (guarded parsed refusal body) := by
  cases parsed with
  | none => exact .ret _
  | some a => exact h a

theorem blindProg_callAt {m : ℤ → Data S → α × Data S} (h : ∀ now, Uncounting (m now)) :
    BlindProg Γ (callAt m) := .lift fun now => (h now).blind

theorem blindProg_callUpdate {m : Data S → α × Data S} (h : Uncounting m) :
    BlindProg Γ (callUpdate m) := .lift fun _ => h.blind

theorem blindProg_callRead {m : Data S → α} (h : Uncounting fun d => (m d, d)) :
    BlindProg Γ (callRead m) := .lift fun _ => h.blind

theorem blindProg_callWrite {write : RedisValue S → RedisValue S}
    (hwrite : ∀ v, write v.uncounted = (write v).uncounted) :
    BlindProg (S := S) Γ (callWrite (Database.writeThrough write key)) :=
  .lift fun _ => (uncounting_write (fun _ _ => ()) hwrite fun _ _ => rfl).blind

theorem blindProg_increment :
    BlindProg (S := S) Γ (callWrite (Database.incrementModCount key)) := .lift fun _ => blind_increment

theorem blindProg_keyExists :
    BlindProg (S := S) Γ (callAt fun now => Database.keyExists now key) :=
  blindProg_callAt fun _ => uncounting_ifLive fun _ _ => rfl

theorem blindProg_type : BlindProg (S := S) Γ (callAt fun now => Database.type now key) :=
  blindProg_callAt fun _ => uncounting_ifLive fun _ _ => rfl

theorem blindProg_countedProg (count : Bool) (reply : Bytes) :
    BlindProg (S := S) Γ (countedProg key count reply) := by
  cases count with
  | false => exact .ret _
  | true => exact .bind blindProg_increment fun _ => .ret _

theorem blindProg_hsetLoopProg (vs : List RespValue) (fieldsSet : ℕ) :
    BlindProg (S := S) Γ (hsetLoopProg key vs fieldsSet) := by
  fun_induction hsetLoopProg (S := S) key vs fieldsSet with
  | case1 field value rest fieldsSet f v hv hf ih =>
    exact .bind (blindProg_callWrite fun _ => rfl) fun _ => ih
  | case2 => exact .ret _
  | case3 => exact .ret _

/-- A read of the entry of one type. -/
theorem blindProg_read {type : RedisType} {absent : α} {read : RedisValue S → α}
    {f : α → Bytes} (hread : ∀ v, read v.uncounted = read v) :
    BlindProg Γ ((callRead (Database.readTyped type absent read key)).bind fun a => .ret (f a)) :=
  .bind (blindProg_callRead (uncounting_readTyped _ _ _ _ hread)) fun _ => .ret _

/-- A change that is counted. -/
theorem blindProg_counted {m : Data S → α × Data S} {count : α → Bool} {reply : α → Bytes}
    (hm : Uncounting m) :
    BlindProg Γ ((callUpdate m).bind fun a => countedProg key (count a) (reply a)) :=
  .bind (blindProg_callUpdate hm) fun _ => blindProg_countedProg _ _

end Programs

/-- No call of a plain command sees a counter. -/
theorem blind_dataProg (writable : Bool) {cmd : Command} {args : Args}
    (hplain : cmd.plain args = true) : BlindProg (S := S) Γ (dataProg writable cmd args) := by
  cases cmd with
  | set =>
    refine blindProg_guarded fun x => ?_
    exact .bind (blindProg_callWrite fun _ => rfl) fun _ => .bind blindProg_increment fun _ => .ret _
  | get =>
    refine blindProg_guarded fun key => .bind blindProg_keyExists fun found => .ite (.ret _) ?_
    refine .bind blindProg_type fun type => .ite (.ret _) ?_
    exact .bind (blindProg_callAt fun _ => uncounting_ifTypedLive _ _ _ fun _ => rfl) fun _ => .ret _
  | existsKey => exact blindProg_guarded fun key => .bind blindProg_keyExists fun _ => .ret _
  | keys =>
    refine blindProg_guarded fun _ => .bind (blindProg_callRead fun d => ?_) fun _ => .ret _
    exact Prod.ext (UMap.keys_mapValues _ d) rfl
  | type =>
    refine blindProg_guarded fun key => .bind blindProg_keyExists fun found => .ite (.ret _) ?_
    exact .bind blindProg_type fun _ => .ret _
  | lpush =>
    refine blindProg_guarded fun x => blindProg_counted ?_
    exact uncounting_write (fun _ w => w.listVal.length) (fun _ => rfl) fun _ _ => rfl
  | rpush =>
    refine blindProg_guarded fun x => blindProg_counted ?_
    exact uncounting_write (fun _ w => w.listVal.length) (fun _ => rfl) fun _ _ => rfl
  | llen =>
    refine blindProg_guarded fun key => .bind (blindProg_callAt fun _ => ?_) fun _ => .ret _
    exact uncounting_ifTypedLive _ _ _ fun _ => rfl
  | lrange => exact blindProg_guarded fun x => blindProg_read fun _ => rfl
  | lindex =>
    refine blindProg_guarded fun x => .bind (blindProg_callRead ?_) fun value => ?_
    · exact uncounting_readTyped _ _ _ _ fun _ => rfl
    · exact .ite (.bind blindProg_keyExists fun _ => .ret _) (.ret _)
  | sadd =>
    refine blindProg_guarded fun x => blindProg_counted ?_
    exact uncounting_write (fun v w => w.setVal.size - v.setVal.size) (fun _ => rfl)
      fun _ _ => rfl
  | srem =>
    exact blindProg_guarded fun x => blindProg_counted (uncounting_updateTyped _ _ _ fun _ => rfl)
  | sismember => exact blindProg_guarded fun x => blindProg_read fun _ => rfl
  | scard => exact blindProg_guarded fun key => blindProg_read fun _ => rfl
  | smembers => exact blindProg_guarded fun key => blindProg_read fun _ => rfl
  | sinter =>
    refine blindProg_guarded fun keys => .bind (blindProg_callRead ?_) fun _ => .ret _
    exact uncounting_sets fun h => Database.sinter_congr fun key _ => h key
  | sunion =>
    refine blindProg_guarded fun keys => .bind (blindProg_callRead ?_) fun _ => .ret _
    exact uncounting_sets fun h => Database.sunion_congr fun key _ => h key
  | sdiff =>
    refine blindProg_guarded fun keys => .bind (blindProg_callRead ?_) fun _ => .ret _
    exact uncounting_sets fun h => Database.sdiff_congr fun key _ => h key
  | hset =>
    refine blindProg_guarded fun key => .bind (blindProg_hsetLoopProg _ _) fun fieldsSet => ?_
    cases fieldsSet with
    | none => exact .ret _
    | some fieldsSet => exact blindProg_countedProg _ _
  | hget =>
    refine blindProg_guarded fun x => .bind (blindProg_callRead ?_) fun value => ?_
    · exact uncounting_readTyped _ _ _ _ fun _ => rfl
    · refine .ite (.bind blindProg_keyExists fun found => ?_) (.ret _)
      cases found with
      | false => exact .ret _
      | true => exact .bind blindProg_type fun _ => .ret _
  | hdel =>
    exact blindProg_guarded fun x => blindProg_counted (uncounting_updateTyped _ _ _ fun _ => rfl)
  | hlen => exact blindProg_guarded fun key => blindProg_read fun _ => rfl
  | hkeys => exact blindProg_guarded fun key => blindProg_read fun _ => rfl
  | hvals => exact blindProg_guarded fun key => blindProg_read fun _ => rfl
  | hgetall => exact blindProg_guarded fun key => blindProg_read fun _ => rfl
  | zadd =>
    refine blindProg_guarded fun x => blindProg_counted ?_
    refine uncounting_write (fun _ _ => !x.2.isEmpty) (fun v => ?_) fun _ _ => rfl
    exact uncounted_foldl_zaddOne x.2 { v with type := .zset }
  | zrem =>
    refine blindProg_guarded fun x => blindProg_counted (uncounting_updateTyped _ _ _ fun v => ?_)
    exact uncounted_foldl_zremOne x.2 (false, v)
  | zcard => exact blindProg_guarded fun key => blindProg_read fun _ => rfl
  | zrange => exact blindProg_guarded fun x => blindProg_read fun _ => rfl
  | zrevrange => exact blindProg_guarded fun x => blindProg_read fun _ => rfl
  | zrank =>
    refine blindProg_guarded fun x => .bind (blindProg_callRead ?_) fun rank => .ite (.ret _) (.ret _)
    exact uncounting_readTyped _ _ _ _ fun _ => rfl
  | ttl =>
    refine blindProg_guarded fun key => .bind (blindProg_callAt fun now => ?_) fun _ => .ret _
    exact uncounting_ifLive fun _ _ => rfl
  | pttl =>
    refine blindProg_guarded fun key => .bind (blindProg_callAt fun now => ?_) fun _ => .ret _
    exact uncounting_ifLive fun _ _ => rfl
  | persist =>
    refine blindProg_guarded fun key => .bind (blindProg_callAt fun now => ?_) fun result =>
      blindProg_countedProg _ _
    exact uncounting_ifLive fun v d => Prod.ext rfl (uncounted_set d key v.persist).symm
  | _ => cases hplain

/-! ### Calls on settled data -/

section Settled

/-- Looks at the data and leaves it alone, as long as nothing expires. -/
def Looks (Γ : Bytes → RedisType) (m : ℤ → Data S → α × Data S) : Prop :=
  ∀ t d, Settled Γ d → (m t d).2 = d

theorem Settled.isExpired (hd : Settled Γ d) {v : RedisValue S} (hv : d.find? key = some v)
    (now : ℤ) : v.isExpired now = false :=
  RedisValue.isExpired_of_expiryTime_zero (hd key v hv).1 now

theorem Settled.ifLive (hd : Settled Γ d) (now : ℤ) (absent : α) (live : RedisValue S → α × Data S)
    (key : Bytes) :
    Database.ifLive now absent live key d = (d.find? key).elim (absent, d) live := by
  unfold Database.ifLive
  cases hv : d.find? key with
  | none => rfl
  | some v =>
    simp only [hd.isExpired hv now]
    rfl

theorem Settled.keyExists (hd : Settled Γ d) (now : ℤ) (key : Bytes) :
    Database.keyExists now key d = ((d.find? key).isSome, d) := by
  rw [Database.keyExists, hd.ifLive]
  cases d.find? key <;> rfl

theorem Settled.type (hd : Settled Γ d) (now : ℤ) (hkey : (d.find? key).isSome = true) :
    Database.type now key d = (Γ key, d) := by
  obtain ⟨v, hv⟩ := Option.isSome_iff_exists.mp hkey
  rw [Database.type, hd.ifLive, hv]
  exact Prod.ext (hd key v hv).2 rfl

theorem looks_ifLive (absent : α) (result : ℤ → RedisValue S → α) :
    Looks Γ fun now d => Database.ifLive now absent (fun v => (result now v, d)) key d := by
  intro now d hd
  simp only [hd.ifLive]
  cases d.find? key <;> rfl

theorem looks_ifTypedLive (type : RedisType) (absent : α) (live : RedisValue S → α) :
    Looks Γ fun now d => Database.ifTypedLive now type absent live key d := by
  intro now d hd
  show (Database.ifTypedLive now type absent live key d).2 = d
  unfold Database.ifTypedLive
  cases hv : d.find? key with
  | none => rfl
  | some v =>
    simp only [hd.isExpired hv now]
    split <;> rfl

/-- Nothing is left to persist. -/
theorem looks_persist : Looks (S := S) Γ fun now d => Database.persist now key d := by
  intro now d hd
  show (Database.persist now key d).2 = d
  rw [Database.persist, hd.ifLive]
  cases hv : d.find? key with
  | none => rfl
  | some v =>
    have hpersist : v.persist = v := by
      unfold RedisValue.persist
      rw [← (hd key v hv).1]
    show d.set key v.persist = d
    rw [hpersist]
    exact UMap.set_of_find? hv

theorem advance_refl (hd : Settled Γ d) : (observer S Γ).Advance d d := ⟨hd, fun _ h => h⟩

theorem advance_set (hd : Settled Γ d) {w : RedisValue S} (hexpiry : w.expiryTime = 0)
    (htype : w.type = Γ key) : (observer S Γ).Advance d (d.set key w) := by
  constructor
  · intro k v hv
    rw [UMap.find?_set] at hv
    split at hv
    · rename_i hk
      cases hv
      exact ⟨hexpiry, hk ▸ htype⟩
    · exact hd k v hv
  · intro k hk
    rw [UMap.find?_set]
    split
    · rfl
    · exact hk

theorem advance_writeThrough (hd : Settled Γ d) {write : RedisValue S → RedisValue S}
    (hexpiry : ∀ v, (write v).expiryTime = v.expiryTime) (htype : ∀ v, (write v).type = Γ key) :
    (observer S Γ).Advance d (Database.writeThrough write key d) := by
  refine advance_set hd ?_ (htype _)
  rw [hexpiry]
  cases hv : d.find? key with
  | none => rfl
  | some v => exact (hd key v hv).1

theorem advance_updateTyped (hd : Settled Γ d) {type : RedisType} {absent : α}
    {update : RedisValue S → α × RedisValue S}
    (hexpiry : ∀ v, (update v).2.expiryTime = v.expiryTime) (htype : ∀ v, (update v).2.type = v.type) :
    (observer S Γ).Advance d (Database.updateTyped type absent update key d).2 := by
  unfold Database.updateTyped
  cases hv : d.find? key with
  | none => exact advance_refl hd
  | some v =>
    simp only
    split
    · refine advance_set hd ?_ ?_
      · rw [hexpiry]
        exact (hd key v hv).1
      · rw [htype]
        exact (hd key v hv).2
    · exact advance_refl hd

/-- The counter of an entry that is there shows nowhere. -/
theorem increment_unseen (hd : Settled Γ d) (hkey : (d.find? key).isSome = true) :
    (observer S Γ).Advance d (Database.incrementModCount key d) ∧
      uncounted (Database.incrementModCount key d) = uncounted d := by
  obtain ⟨v, hv⟩ := Option.isSome_iff_exists.mp hkey
  obtain ⟨hexpiry, htype⟩ := hd key v hv
  rw [Database.incrementModCount, hv]
  refine ⟨advance_set hd hexpiry htype, ?_⟩
  rw [uncounted_set]
  exact UMap.set_of_find? (by rw [find?_uncounted, hv]; rfl)

end Settled

section Linear

variable (Γ) in
abbrev QuietProg (a : α) (p : DataProg S α) (d : Data S) : Prop := p.Quiet (observer S Γ) a d

variable (Γ) in
abbrev LinearProg (p : DataProg S α) (d : Data S) : Prop := p.Linear (observer S Γ) d

theorem linearProg_guarded {parsed : Option α} {refusal : Bytes} {body : α → DataProg S Bytes}
    (h : ∀ a, parsed = some a → LinearProg Γ (body a) d) :
    LinearProg Γ (guarded parsed refusal body) d := by
  cases parsed with
  | none => trivial
  | some a => exact h a rfl

theorem quiet_look {m : ℤ → Data S → β × Data S} {k : β → DataProg S α} {a : α} (hm : Looks Γ m)
    (hk : ∀ b d, QuietProg Γ a (k b) d) : QuietProg Γ a (.call m k) d := by
  intro d' t _ hd'
  have hstate := hm t d' hd'
  rw [hstate]
  exact ⟨advance_refl hd', rfl, hk _ _⟩

theorem quiet_countedProg {count : Bool} {reply : Bytes}
    (hkey : count = true → (d.find? key).isSome = true) :
    QuietProg (S := S) Γ reply (countedProg key count reply) d := by
  cases count with
  | false => rfl
  | true =>
    intro d' t hle hd'
    obtain ⟨hadvance, hsame⟩ := increment_unseen hd' (hle key (hkey rfl))
    exact ⟨hadvance, hsame, rfl⟩

/-- A change in one call, and the counter behind it. -/
theorem linear_counted {m : Data S → β × Data S} {count : β → Bool} {reply : β → Bytes}
    (hadvance : ∀ d, Settled Γ d → (observer S Γ).Advance d (m d).2)
    (hkey : ∀ d, Settled Γ d → count (m d).1 = true → ((m d).2.find? key).isSome = true) :
    LinearProg Γ ((callUpdate m).bind fun b => countedProg key (count b) (reply b)) d :=
  Prog.linear_of_quiet (fun d' _ _ hd' => hadvance d' hd')
    fun d' _ _ hd' => ⟨_, quiet_countedProg (hkey d' hd')⟩

theorem linear_write {write : RedisValue S → RedisValue S} (result : Data S → β) (count : β → Bool)
    (reply : β → Bytes) (hexpiry : ∀ v, (write v).expiryTime = v.expiryTime)
    (htype : ∀ v, (write v).type = Γ key) :
    LinearProg Γ ((callUpdate fun d => (result d, Database.writeThrough write key d)).bind
      fun b => countedProg key (count b) (reply b)) d := by
  refine linear_counted (fun d hd => advance_writeThrough hd hexpiry htype) fun d _ _ => ?_
  show ((Database.writeThrough write key d).find? key).isSome = true
  rw [Database.writeThrough, UMap.find?_set_self]
  rfl

/-- A removal; it counts only where it found something. -/
theorem linear_removal {type : RedisType} {absent : β} {update : RedisValue S → β × RedisValue S}
    {count : β → Bool} {reply : β → Bytes} (hexpiry : ∀ v, (update v).2.expiryTime = v.expiryTime)
    (htype : ∀ v, (update v).2.type = v.type) (habsent : count absent = false) :
    LinearProg Γ ((callUpdate (Database.updateTyped type absent update key)).bind
      fun b => countedProg key (count b) (reply b)) d := by
  refine linear_counted (fun d hd => advance_updateTyped hd hexpiry htype) fun d _ => ?_
  unfold Database.updateTyped
  cases hv : d.find? key with
  | none =>
    intro hcount
    rw [habsent] at hcount
    cases hcount
  | some v =>
    intro _
    simp only
    split
    · rw [UMap.find?_set_self]
      rfl
    · rw [hv]
      rfl

theorem linear_look {m : ℤ → Data S → β × Data S} (hm : Looks Γ m) (f : β → Bytes) :
    LinearProg Γ ((callAt m).bind fun b => .ret (f b)) d := by
  refine Prog.linear_lift_bind fun d' t _ hd' => ?_
  rw [hm t d' hd']
  exact advance_refl hd'

theorem linear_read (m : Data S → β) (f : β → Bytes) :
    LinearProg Γ ((callRead m).bind fun b => .ret (f b)) d :=
  Prog.linear_lift_bind fun _ _ _ hd' => advance_refl hd'

/-- A question about the data.  Its answer settles the reply, or stays true. -/
theorem linear_ask {m : ℤ → Data S → β × Data S} {k : β → DataProg S α} (answer : Data S → β)
    (hanswer : ∀ t d', (observer S Γ).Le d d' → Settled Γ d' → m t d' = (answer d', d'))
    (hcases : ∀ d', (observer S Γ).Le d d' → Settled Γ d' →
      (∃ a, QuietProg Γ a (k (answer d')) d') ∨
        ((∀ d'', (observer S Γ).Le d' d'' → Settled Γ d'' → answer d'' = answer d') ∧
          LinearProg Γ (k (answer d')) d')) :
    LinearProg Γ (.call m k) d := by
  intro d' t hle hd'
  rw [hanswer t d' hle hd']
  refine ⟨advance_refl hd', ?_⟩
  rcases hcases d' hle hd' with hquiet | ⟨hstable, hrest⟩
  · exact .inl hquiet
  · refine .inr ⟨rfl, fun d'' t' hle' hd'' => ?_, hrest⟩
    show (observer S Γ).SameRun ((k (answer d')).run t' d'')
      ((k (m t' d'').1).run t' (m t' d'').2)
    rw [hanswer t' d'' ((observer S Γ).le_trans hle hle') hd'', hstable d'' hle' hd'']
    exact ⟨rfl, rfl⟩

/-- A key that was missing is answered there and then; one that was there is there still. -/
theorem linear_found {absent : Bytes} {rest : DataProg S Bytes}
    (hrest : ∀ d, (d.find? key).isSome = true → LinearProg Γ rest d) :
    LinearProg Γ ((callAt fun now => Database.keyExists now key).bind fun found =>
      if !found then .ret absent else rest) d := by
  refine linear_ask (fun d => (d.find? key).isSome) (fun t d' _ hd' => hd'.keyExists t key)
    fun d' _ _ => ?_
  cases hkey : (d'.find? key).isSome with
  | false => exact .inl ⟨absent, rfl⟩
  | true => exact .inr ⟨fun d'' hle _ => hle key hkey, hrest d' hkey⟩

/-- A key that is there has the type it had. -/
theorem linear_typed {other : Bytes} {rest : DataProg S Bytes} {type : RedisType}
    (hkey : (d.find? key).isSome = true) (hrest : ∀ d, LinearProg Γ rest d) :
    LinearProg Γ ((callAt fun now => Database.type now key).bind fun found =>
      if found ≠ type then .ret other else rest) d := by
  refine linear_ask (fun _ => Γ key) (fun t d' hle hd' => hd'.type t (hle key hkey))
    fun d' _ _ => ?_
  by_cases htype : Γ key = type
  · refine .inr ⟨fun _ _ _ => rfl, ?_⟩
    show LinearProg Γ (if Γ key ≠ type then _ else rest) d'
    rw [if_neg (not_not.mpr htype)]
    exact hrest d'
  · refine .inl ⟨other, ?_⟩
    show QuietProg Γ other (if Γ key ≠ type then _ else rest) d'
    rw [if_pos htype]
    rfl

/-- One pair, one write. -/
theorem linear_hset {args : Args} (hlength : args.length ≤ 4) (hkey : pairsKey? args = some key)
    (htype : Γ key = .hash) :
    LinearProg (S := S) Γ ((hsetLoopProg key (args.drop 2) 0).bind fun fieldsSet =>
      match fieldsSet with
      | none => .ret (errReply "ERR HSET field and value must be bulk strings")
      | some fieldsSet => countedProg key (fieldsSet > 0) (intReply fieldsSet)) d := by
  unfold pairsKey? at hkey
  split at hkey
  · cases hkey
  · rename_i harity
    rcases args with _ | ⟨name, _ | ⟨arg, _ | ⟨field, _ | ⟨value, _ | ⟨more, rest⟩⟩⟩⟩⟩
    iterate 4 simp at harity
    · show LinearProg Γ ((hsetLoopProg key [field, value] 0).bind _) d
      rw [hsetLoopProg]
      cases field.bulk? with
      | none => trivial
      | some f =>
        cases value.bulk? with
        | none => trivial
        | some v =>
          exact linear_write (fun _ => ()) (fun _ => true) (fun _ => intReply 1) (fun _ => rfl)
            fun _ => htype.symm
    · simp only [List.length_cons] at hlength
      omega

end Linear

/-- Under any schedule a plain command has one call in which it takes effect. -/
theorem linear_dataProg (writable : Bool) {cmd : Command} {args : Args}
    (hplain : cmd.plain args = true)
    (htyped : ∀ type key, cmd.writesType = some type → firstKey? args = some key → Γ key = type) :
    LinearProg (S := S) Γ (dataProg writable cmd args) d := by
  cases cmd with
  | set =>
    refine linearProg_guarded fun x hx => ?_
    have htype := htyped _ _ rfl (firstKey?_of_twoArgs? hx)
    exact linear_write (fun _ => ()) (fun _ => true) _ (fun _ => rfl) fun _ => htype.symm
  | get =>
    refine linearProg_guarded fun key _ => linear_found fun d hkey => linear_typed hkey fun d => ?_
    exact linear_look (looks_ifTypedLive _ _ _) _
  | existsKey => exact linearProg_guarded fun key _ => linear_look (looks_ifLive _ _) _
  | keys => exact linearProg_guarded fun _ _ => linear_read _ _
  | type =>
    refine linearProg_guarded fun key _ => linear_found fun d hkey => ?_
    exact linear_look (looks_ifLive _ _) fun type => 43 :: (typeText type ++ crlf)
  | lpush =>
    refine linearProg_guarded fun x hx => ?_
    have htype := htyped _ _ rfl (firstKey?_of_keyAndRest? hx)
    exact linear_write _ (fun _ => true) _ (fun _ => rfl) fun _ => htype.symm
  | rpush =>
    refine linearProg_guarded fun x hx => ?_
    have htype := htyped _ _ rfl (firstKey?_of_keyAndRest? hx)
    exact linear_write _ (fun _ => true) _ (fun _ => rfl) fun _ => htype.symm
  | llen => exact linearProg_guarded fun key _ => linear_look (looks_ifTypedLive _ _ _) _
  | lrange => exact linearProg_guarded fun x _ => linear_read _ _
  | lindex =>
    refine linearProg_guarded fun x _ => Prog.linear_of_quiet (fun _ _ _ hd' => advance_refl hd')
      fun d' _ _ _ => ?_
    show ∃ a, QuietProg Γ a (if Database.lindex x.1 x.2 d' = [] then _ else _) d'
    split
    · exact ⟨nullBulk, quiet_look (looks_ifLive _ _) fun _ _ => rfl⟩
    · exact ⟨_, rfl⟩
  | sadd =>
    refine linearProg_guarded fun x hx => ?_
    have htype := htyped _ _ rfl (firstKey?_of_keyAndRest? hx)
    exact linear_write _ _ _ (fun _ => rfl) fun _ => htype.symm
  | srem =>
    exact linearProg_guarded fun x _ => linear_removal (fun _ => rfl) (fun _ => rfl) rfl
  | sismember => exact linearProg_guarded fun x _ => linear_read _ _
  | scard => exact linearProg_guarded fun key _ => linear_read _ _
  | smembers => exact linearProg_guarded fun key _ => linear_read _ _
  | sinter => exact linearProg_guarded fun keys _ => linear_read _ _
  | sunion => exact linearProg_guarded fun keys _ => linear_read _ _
  | sdiff => exact linearProg_guarded fun keys _ => linear_read _ _
  | hset =>
    refine linearProg_guarded fun key hkey => ?_
    exact linear_hset (by simpa [Command.plain] using hplain) hkey
      (htyped _ _ rfl (firstKey?_of_pairsKey? hkey))
  | hget =>
    refine linearProg_guarded fun x _ => Prog.linear_of_quiet (fun _ _ _ hd' => advance_refl hd')
      fun d' _ _ _ => ?_
    show ∃ a, QuietProg Γ a (if Database.hget x.1 x.2 d' = [] then _ else _) d'
    split
    · refine ⟨nullBulk, quiet_look (looks_ifLive _ _) fun found d => ?_⟩
      cases found with
      | false => rfl
      | true => exact quiet_look (looks_ifLive _ _) fun _ _ => rfl
    · exact ⟨_, rfl⟩
  | hdel =>
    exact linearProg_guarded fun x _ => linear_removal (fun _ => rfl) (fun _ => rfl) rfl
  | hlen => exact linearProg_guarded fun key _ => linear_read _ _
  | hkeys => exact linearProg_guarded fun key _ => linear_read _ _
  | hvals => exact linearProg_guarded fun key _ => linear_read _ _
  | hgetall => exact linearProg_guarded fun key _ => linear_read _ _
  | zadd =>
    refine linearProg_guarded fun x hx => ?_
    have htype := htyped _ _ rfl (firstKey?_of_zaddArgs? hx)
    refine linear_write _ _ _ (fun v => ?_) fun v => ?_
    · exact Database.foldl_zaddOne_keeps (fun v => v.expiryTime) (fun _ _ => rfl) _ _
    · rw [Database.foldl_zaddOne_keeps (fun v => v.type) fun _ _ => rfl]
      exact htype.symm
  | zrem =>
    refine linearProg_guarded fun x _ => linear_removal (fun v => ?_) (fun v => ?_) rfl
    · exact (foldl_zremOne_spec x.2 (false, v)).2
    · exact type_foldl_zremOne x.2 (false, v)
  | zcard => exact linearProg_guarded fun key _ => linear_read _ _
  | zrange => exact linearProg_guarded fun x _ => linear_read _ _
  | zrevrange => exact linearProg_guarded fun x _ => linear_read _ _
  | zrank =>
    refine linearProg_guarded fun x _ => Prog.linear_of_quiet (fun _ _ _ hd' => advance_refl hd')
      fun d' _ _ _ => ?_
    show ∃ a, QuietProg Γ a (if Database.zrank x.1 x.2 d' < 0 then _ else _) d'
    split <;> exact ⟨_, rfl⟩
  | ttl => exact linearProg_guarded fun key _ => linear_look (looks_ifLive _ _) _
  | pttl => exact linearProg_guarded fun key _ => linear_look (looks_ifLive _ _) _
  | persist =>
    refine linearProg_guarded fun key _ => Prog.linear_of_quiet (fun d' t _ hd' => ?_)
      fun d' t _ hd' => ⟨_, quiet_countedProg fun hresult => ?_⟩
    · rw [looks_persist t d' hd']
      exact advance_refl hd'
    · rw [looks_persist t d' hd']
      rw [Database.persist, hd'.ifLive] at hresult
      cases hv : d'.find? key with
      | none =>
        rw [hv] at hresult
        cases hresult
      | some v => rfl
  | _ => cases hplain

end MinimalRedis
