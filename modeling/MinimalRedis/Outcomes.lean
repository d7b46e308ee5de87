import MinimalRedis.TypeChange

/-!
# What one command does to one entry

The modification counter is a member of the entry.  `Outcome` says what a data command may do to the
entry at `k`:

* leave it as it is,
* lose it, which only `DEL` and the purge of an expired entry do (`Erases`),
* count the change by one; a missing entry is created by a write alone (`Creates`).

Two commands can do something else, and `Uncounted` names them: a `SADD` that adds no member **still
changes the type**, and an `HSET` that fails midway **has entered pairs without counting them**.

* `outcome_dispatch` — every other data command has an outcome of this kind.
-/

namespace MinimalRedis

open Lib Session

variable {S : Type} [Score S] {Λ : Type}

/-! ### Outcomes -/

/-- The entry at `k` is untouched, lost (if `mayErase`), or there with a counter one higher (and new
only if `mayCreate`). -/
def Outcome (mayErase mayCreate : Prop) (k : Bytes) (d d' : Data S) : Prop :=
  d'.find? k = d.find? k ∨ (mayErase ∧ d'.find? k = none) ∨
    ∃ w, d'.find? k = some w ∧ w.modCount = Database.getModCount k d + 1 ∧
      (d.find? k = none → mayCreate)

/-- The entry at `key` is there and has expired. -/
def Expired (now : ℤ) (key : Bytes) (d : Data S) : Prop :=
  ∃ v, d.find? key = some v ∧ v.isExpired now = true

/-- Nothing happened, or an expired entry was erased. -/
def Purged (now : ℤ) (key : Bytes) (d d' : Data S) : Prop :=
  d' = d ∨ Expired now key d ∧ d' = d.erase key

/-- Nothing but the entry at `key` changes. -/
def OnlyAt (key : Bytes) (d d' : Data S) : Prop := ∀ k, k ≠ key → d'.find? k = d.find? k

theorem getModCount_of_find? {k : Bytes} {d : Data S} {v : RedisValue S}
    (h : d.find? k = some v) : Database.getModCount k d = v.modCount := by
  simp [Database.getModCount, h]

namespace OnlyAt

theorem refl (key : Bytes) (d : Data S) : OnlyAt key d d := fun _ _ => rfl

theorem trans {key : Bytes} {d d' d'' : Data S} (h : OnlyAt key d d') (h' : OnlyAt key d' d'') :
    OnlyAt key d d'' := fun k hk => (h' k hk).trans (h k hk)

theorem set (key : Bytes) (v : RedisValue S) (d : Data S) : OnlyAt key d (d.set key v) :=
  fun _ hk => UMap.find?_set_ne d v hk

theorem erase (key : Bytes) (d : Data S) : OnlyAt key d (d.erase key) :=
  fun _ hk => UMap.find?_erase_ne d hk

theorem incrementModCount (key : Bytes) (d : Data S) :
    OnlyAt key d (Database.incrementModCount key d) := by
  unfold Database.incrementModCount
  split <;> exact set key _ d

theorem of_purged {now : ℤ} {key : Bytes} {d d' : Data S} (h : Purged now key d d') :
    OnlyAt key d d' := by
  rcases h with rfl | ⟨-, rfl⟩
  · exact refl key _
  · exact erase key d

end OnlyAt

/-! ### Access patterns -/

section Patterns

variable {α : Type} {now : ℤ} {key : Bytes} {d : Data S}

theorem ifLive_cases (now : ℤ) (absent : α) (live : RedisValue S → α × Data S) (key : Bytes)
    (d : Data S) :
    (Purged now key d (Database.ifLive now absent live key d).2 ∧
        (Database.ifLive now absent live key d).1 = absent) ∨
      ∃ v, d.find? key = some v ∧ Database.ifLive now absent live key d = live v := by
  unfold Database.ifLive
  cases hv : d.find? key with
  | none => exact .inl ⟨.inl rfl, rfl⟩
  | some v =>
    cases hexp : v.isExpired now with
    | true => exact .inl ⟨.inr ⟨⟨v, hv, hexp⟩, by simp [hexp]⟩, by simp [hexp]⟩
    | false => exact .inr ⟨v, rfl, by simp [hexp]⟩

/-- The `ifLive` methods that only read. -/
theorem purged_ifLive (now : ℤ) (absent : α) (read : RedisValue S → α) (key : Bytes) (d : Data S) :
    Purged now key d (Database.ifLive now absent (fun v => (read v, d)) key d).2 := by
  rcases ifLive_cases now absent (fun v => (read v, d)) key d with ⟨h, -⟩ | ⟨v, -, h⟩
  · exact h
  · exact .inl (by rw [h])

theorem purged_ifTypedLive (now : ℤ) (type : RedisType) (absent : α) (read : RedisValue S → α)
    (key : Bytes) (d : Data S) :
    Purged now key d (Database.ifTypedLive now type absent read key d).2 := by
  unfold Database.ifTypedLive
  cases hv : d.find? key with
  | none => exact .inl rfl
  | some v =>
    simp only
    split
    · split
      · rename_i hexp
        exact .inr ⟨⟨v, hv, hexp⟩, rfl⟩
      · exact .inl rfl
    · exact .inl rfl

theorem purged_keyExists (now : ℤ) (key : Bytes) (d : Data S) :
    Purged now key d (Database.keyExists now key d).2 := purged_ifLive now false (fun _ => true) key d

theorem find?_of_keyExists (h : (Database.keyExists now key d).1 = true) :
    ∃ v, d.find? key = some v := by
  rcases ifLive_cases now false (fun _ => (true, d)) key d with ⟨-, hfalse⟩ | ⟨v, hv, -⟩
  · rw [Database.keyExists, hfalse] at h
    cases h
  · exact ⟨v, hv⟩

theorem updateTyped_cases (type : RedisType) (absent : α)
    (update : RedisValue S → α × RedisValue S) (key : Bytes) (d : Data S) :
    Database.updateTyped type absent update key d = (absent, d) ∨
      ∃ v, d.find? key = some v ∧ v.type = type ∧
        Database.updateTyped type absent update key d = ((update v).1, d.set key (update v).2) := by
  unfold Database.updateTyped
  cases hv : d.find? key with
  | none => exact .inl rfl
  | some v =>
    by_cases htype : v.type = type
    · exact .inr ⟨v, rfl, htype, by simp [htype]⟩
    · exact .inl (by simp [htype])

end Patterns

/-! ### Outcomes of the access patterns -/

section Outcomes

variable {P Q : Prop} {now : ℤ} {k key : Bytes} {d d' : Data S}

theorem outcome_refl (k : Bytes) (d : Data S) : Outcome P Q k d d := .inl rfl

variable (key) in
/-- A change confined to `key` concerns `k` only when they are the same. -/
theorem outcome_of_onlyAt (honly : OnlyAt key d d') (h : key = k → Outcome P Q k d d') :
    Outcome P Q k d d' := by
  by_cases hk : key = k
  · exact h hk
  · exact .inl (honly k (Ne.symm hk))

variable (key) in
theorem outcome_of_purged (h : Purged now key d d') (hP : key = k → Expired now key d → P) :
    Outcome P Q k d d' := by
  apply outcome_of_onlyAt key (.of_purged h)
  intro hk
  rcases h with rfl | ⟨hexp, rfl⟩
  · exact outcome_refl k _
  · exact .inr (.inl ⟨hP hk hexp, by rw [← hk, UMap.find?_erase_self]⟩)

/-- Nothing happened, or the entry at the key that the arguments name had expired and was erased. -/
def PurgesNamed (now : ℤ) (args : Args) (d d' : Data S) : Prop :=
  d' = d ∨ ∃ name key rest, args = name :: .bulkString key :: rest ∧ Purged now key d d'

/-- Counting at `key` an assignment that kept the counter. -/
theorem outcome_increment (honly : OnlyAt key d d') {w : RedisValue S}
    (hw : d'.find? key = some w) (hcount : w.modCount = Database.getModCount key d)
    (hQ : key = k → d.find? key = none → Q) :
    Outcome P Q k d (Database.incrementModCount key d') := by
  apply outcome_of_onlyAt key (honly.trans (.incrementModCount key d'))
  intro hk
  subst hk
  refine .inr (.inr ⟨w.bump, ?_, ?_, hQ rfl⟩)
  · simp [Database.incrementModCount, hw]
  · rw [← hcount]
    rfl

theorem outcome_write (write : RedisValue S → RedisValue S)
    (hwrite : ∀ v, (write v).modCount = v.modCount) (hQ : key = k → Q) :
    Outcome P Q k d (Database.incrementModCount key (Database.writeThrough write key d)) := by
  refine outcome_increment (.set key _ d) (UMap.find?_set_self _ _ _) ?_ fun hk _ => hQ hk
  rw [hwrite]
  unfold Database.getModCount
  cases d.find? key <;> rfl

/-- The expiry commands: an assignment to a found entry, counted. -/
theorem outcome_ifLive_write (write : RedisValue S → RedisValue S)
    (hwrite : ∀ v, (write v).modCount = v.modCount) (hP : key = k → Expired now key d → P)
    {x : Bool × Data S}
    (hx : x = Database.ifLive now false (fun v => (true, d.set key (write v))) key d) :
    Outcome P Q k d (if x.1 = true then Database.incrementModCount key x.2 else x.2) := by
  rcases ifLive_cases now false (fun v => (true, d.set key (write v))) key d with
    ⟨hpurged, hfalse⟩ | ⟨v, hv, hlive⟩
  · rw [hx, hfalse, if_neg (by decide)]
    exact outcome_of_purged key hpurged hP
  · rw [hx, hlive, if_pos rfl]
    refine outcome_increment (.set key _ d) (UMap.find?_set_self _ _ _) ?_ ?_
    · rw [hwrite, getModCount_of_find? hv]
    · intro _ hnone
      rw [hv] at hnone
      cases hnone

/-- The removals: a removal that took nothing left the entry as it was. -/
theorem outcome_remove {α : Type} (type : RedisType) (absent : α)
    (update : RedisValue S → α × RedisValue S) (changed : α → Prop) [DecidablePred changed]
    (habsent : ¬ changed absent) (hcount : ∀ v, (update v).2.modCount = v.modCount)
    (hnot : ∀ v, ¬ changed (update v).1 → (update v).2 = v) {x : α × Data S}
    (hx : x = Database.updateTyped type absent update key d) :
    Outcome P Q k d (if changed x.1 then Database.incrementModCount key x.2 else x.2) := by
  rcases updateTyped_cases type absent update key d with h | ⟨v, hv, -, h⟩
  · rw [hx, h, if_neg habsent]
    exact outcome_refl k d
  · rw [hx, h]
    split
    · refine outcome_increment (.set key _ d) (UMap.find?_set_self _ _ _) ?_ ?_
      · rw [hcount, getModCount_of_find? hv]
      · intro _ hnone
        rw [hv] at hnone
        cases hnone
    · rename_i hch
      rw [hnot v hch, UMap.set_of_find? hv]
      exact outcome_refl k d

/-- The pops: a popped value is counted, and so is the empty answer of a live key. -/
theorem outcome_popReply (update : RedisValue S → Bytes × RedisValue S)
    (hcount : ∀ v, (update v).2.modCount = v.modCount)
    (hexpiry : ∀ v, (update v).2.expiryTime = v.expiryTime)
    (hP : key = k → Expired now key d → P) :
    Outcome P Q k d
      (popReply now key (Database.updateTyped .list [] update key d)).2 := by
  have hpurge : ∀ d', Purged now key d d' → Outcome P Q k d d' := fun d' h => outcome_of_purged key h hP
  rcases updateTyped_cases .list [] update key d with h | ⟨v, hv, -, h⟩
  · -- nothing to pop: the answer is empty, and counted when the key is there
    rw [h]
    simp only [popReply, if_true]
    cases hfound : (Database.keyExists now key d).1 with
    | false => simpa [hfound] using hpurge _ (purged_keyExists now key d)
    | true =>
      obtain ⟨v, hv⟩ := find?_of_keyExists hfound
      simp only [Bool.not_true, Bool.false_eq_true, if_false, Database.keyExists_snd hfound]
      refine outcome_increment (.refl key d) hv (getModCount_of_find? hv).symm ?_
      intro _ hnone
      rw [hv] at hnone
      cases hnone
  · rw [h]
    have hbump : Outcome P Q k d
        (Database.incrementModCount key (d.set key (update v).2)) := by
      refine outcome_increment (.set key _ d) (UMap.find?_set_self _ _ _) ?_ ?_
      · rw [hcount, getModCount_of_find? hv]
      · intro _ hnone
        rw [hv] at hnone
        cases hnone
    simp only [popReply]
    split
    · cases hfound : (Database.keyExists now key (d.set key (update v).2)).1 with
      | true =>
        simpa [hfound, Database.keyExists_snd hfound] using hbump
      | false =>
        -- the popped value is empty and the entry expired: it is erased after the pop
        have hexp : (update v).2.isExpired now = true := by
          by_contra hlive
          simp [Database.keyExists, Database.ifLive, hlive] at hfound
        have hgone : (Database.keyExists now key (d.set key (update v).2)).2 = d.erase key := by
          simp [Database.keyExists, Database.ifLive, hexp, UMap.erase_set]
        have hexp' : v.isExpired now = true := by
          rw [← hexp, RedisValue.isExpired, RedisValue.isExpired, hexpiry]
        simpa [hfound, hgone] using hpurge _ (.inr ⟨⟨v, hv, hexp'⟩, rfl⟩)
    · exact hbump

end Outcomes

/-! ### Argument shapes -/

section Shapes

variable {P Q : Prop} {now : ℤ} {k : Bytes} {args : Args} {d : Data S}

/-! A property of the data after a command is one of the data before it, which a refused command
leaves, and of what the accepted one makes of them. -/

theorem rel_of_refuses {R : Data S → Prop} (hself : R d) {msgs : List String}
    {h : Data S → Bytes × Data S} (href : Refuses msgs h) : R (h d).2 := by
  obtain ⟨msg, -, hd⟩ := href
  rw [hd]
  exact hself

theorem rel_withKey {R : Data S → Prop} (hself : R d) {arity notBulk : String}
    {run : Bytes → Data S → Bytes × Data S}
    (hrun : ∀ name key, args = [name, .bulkString key] → R (run key d).2) :
    R (withKey arity notBulk run args d).2 := by
  rcases withKey_cases arity notBulk run args with href | ⟨name, key, hargs, h⟩
  · exact rel_of_refuses hself href
  · rw [h]
    exact hrun name key hargs

theorem rel_withTwo {R : Data S → Prop} (hself : R d) {arity notBulk : String}
    {run : Bytes → Bytes → Data S → Bytes × Data S}
    (hrun : ∀ name key arg, args = [name, .bulkString key, .bulkString arg] → R (run key arg d).2) :
    R (withTwo arity notBulk run args d).2 := by
  rcases withTwo_cases arity notBulk run args with href | ⟨name, key, arg, hargs, h⟩
  · exact rel_of_refuses hself href
  · rw [h]
    exact hrun name key arg hargs

theorem rel_withKeyAndRest {R : Data S → Prop} (hself : R d) {arity notBulkKey notBulkRest : String}
    {run : Bytes → List Bytes → Data S → Bytes × Data S}
    (hrun : ∀ name key rest values, args = name :: .bulkString key :: rest →
      values? rest = some values → R (run key values d).2) :
    R (withKeyAndRest arity notBulkKey notBulkRest run args d).2 := by
  rcases withKeyAndRest_cases arity notBulkKey notBulkRest run args with
    href | ⟨name, key, v, vs, values, hargs, hall, h⟩
  · exact rel_of_refuses hself href
  · rw [h]
    exact hrun name key (v :: vs) values hargs hall

theorem rel_withDuration {R : Data S → Prop} (hself : R d) {arity notBulk notInt : String}
    {run : Bytes → ℤ → Data S → Bytes × Data S}
    (hrun : ∀ name key arg n, args = [name, .bulkString key, .bulkString arg] → R (run key n d).2) :
    R (withDuration arity notBulk notInt run args d).2 := by
  apply rel_withTwo hself
  intro name key arg hargs
  cases stoll arg with
  | none => exact hself
  | some n => exact hrun name key arg n hargs

theorem purgesNamed_withKey {arity notBulk : String} {run : Bytes → Data S → Bytes × Data S}
    (hrun : ∀ key, Purged now key d (run key d).2) :
    PurgesNamed now args d (withKey arity notBulk run args d).2 := by
  apply rel_withKey (.inl rfl)
  intro name key hargs
  exact .inr ⟨name, key, [], hargs, hrun key⟩

theorem purgesNamed_withTwo {arity notBulk : String} {run : Bytes → Bytes → Data S → Bytes × Data S}
    (hrun : ∀ key arg, Purged now key d (run key arg d).2) :
    PurgesNamed now args d (withTwo arity notBulk run args d).2 := by
  apply rel_withTwo (.inl rfl)
  intro name key arg hargs
  exact .inr ⟨name, key, [.bulkString arg], hargs, hrun key arg⟩

end Shapes

/-! ### Commands -/

/-- The command names `k` as its key. -/
def NamesKey (k : Bytes) (args : Args) : Prop := ∃ name rest, args = name :: .bulkString k :: rest

/-- The commands that erase an expired entry when they come across it. -/
def Command.purges : Command → Bool
  | .get | .existsKey | .type | .lpop | .rpop | .llen | .lindex | .hget | .zscore => true
  | .expire | .pexpire | .ttl | .pttl | .persist => true
  | _ => false

/-- The command may lose the entry at `k`: a `DEL` of it, or an access that finds it expired. -/
def Erases (now : ℤ) (k : Bytes) (cmd : Option Command) (args : Args) (d : Data S) : Prop :=
  NamesKey k args ∧ (cmd = some .del ∨ cmd.any Command.purges = true ∧ Expired now k d)

variable (S) in
/-- The command creates `k` when it is missing. -/
def Creates (k : Bytes) (cmd : Option Command) (args : Args) : Prop :=
  ∃ name rest, args = name :: .bulkString k :: rest ∧
    match cmd with
    | some .set => ∃ value, rest = [.bulkString value]
    | some .lpush => (values? rest).isSome = true
    | some .rpush => (values? rest).isSome = true
    | some .sadd => (values? rest).isSome = true
    | some .hset => rest.length % 2 = 0 ∧ leadingPairs rest ≠ []
    | some .zadd => ∃ ps : List (S × Bytes), rest ≠ [] ∧ rest.length % 2 = 0 ∧ zaddPairs rest = .ok ps
    | _ => False

/-- The command changes the entry at `k` and does not count it: a `SADD` that changes the type and
adds no member, or an `HSET` that fails after its first pair. -/
def Uncounted (k : Bytes) (cmd : Option Command) (args : Args) (d : Data S) : Prop :=
  ∃ name rest, args = name :: .bulkString k :: rest ∧
    match cmd with
    | some .sadd => ∃ members v, values? rest = some members ∧ d.find? k = some v ∧
        v.type ≠ .set ∧ ∀ m ∈ members, v.setVal.contains m = true
    | some .hset => rest.length % 2 = 0 ∧ leadingPairs rest ≠ [] ∧ allBulk rest = none
    | _ => False

section Commands

variable {now : ℤ} {k : Bytes} {args : Args} {d : Data S}

theorem erases_of_expired {cmd : Command} (hcmd : cmd.purges = true) {name : RespValue}
    {key : Bytes} {rest : List RespValue} (hargs : args = name :: .bulkString key :: rest)
    (hk : key = k) (hexp : Expired now key d) : Erases now k (some cmd) args d := by
  subst hk
  exact ⟨⟨name, rest, hargs⟩, .inr ⟨hcmd, hexp⟩⟩

/-- A read changes at most an expired entry. -/
theorem outcome_of_purgesNamed {Q : Prop} {cmd : Command} {d' : Data S} (hcmd : cmd.purges = true)
    (h : PurgesNamed now args d d') : Outcome (Erases now k (some cmd) args d) Q k d d' := by
  rcases h with rfl | ⟨name, key, rest, hargs, h⟩
  · exact outcome_refl k _
  · exact outcome_of_purged key h fun hk => erases_of_expired hcmd hargs hk

theorem outcome_set : Outcome (Erases now k (some .set) args d) (Creates S k (some .set) args) k d
    (handleSet args d).2 := by
  apply rel_withTwo (outcome_refl k _)
  intro name key value hargs
  refine outcome_write _ ?_ ?_
  · exact fun _ => rfl
  · intro hk
    subst hk
    exact ⟨name, _, hargs, value, rfl⟩

theorem purgesNamed_get : PurgesNamed now args d (handleGet now args d).2 := by
  apply purgesNamed_withKey
  intro key
  cases hfound : (Database.keyExists now key d).1 with
  | false => simpa [hfound] using purged_keyExists now key d
  | true =>
    simp only [Database.keyExists_snd hfound, hfound, Bool.not_true, Bool.false_eq_true, if_false,
      Database.type_snd hfound]
    split
    · exact .inl rfl
    · exact purged_ifTypedLive now .string [] _ key d

theorem purgesNamed_type : PurgesNamed now args d (handleType now args d).2 := by
  apply purgesNamed_withKey
  intro key
  cases hfound : (Database.keyExists now key d).1 with
  | false => simpa [hfound] using purged_keyExists now key d
  | true =>
    simp only [Database.keyExists_snd hfound, hfound, Bool.not_true, Bool.false_eq_true, if_false,
      Database.type_snd hfound]
    exact .inl rfl

/-- `DEL` loses the entry whatever the branch it takes. -/
theorem outcome_del {Q : Prop} : Outcome (Erases now k (some .del) args d) Q k d
    (handleDel now args d).2 := by
  apply rel_withKey (outcome_refl k _)
  intro name key hargs
  have hfound : OnlyAt key d (Database.keyExists now key d).2 := .of_purged (purged_keyExists now key d)
  apply outcome_of_onlyAt key
  · refine OnlyAt.trans ?_ (.erase key _)
    split
    · exact hfound.trans (.incrementModCount key _)
    · exact hfound
  · intro hk
    subst hk
    exact .inr (.inl ⟨⟨⟨name, _, hargs⟩, .inl rfl⟩, UMap.find?_erase_self _ _⟩)

theorem purgesNamed_lindex : PurgesNamed now args d (handleLindex now args d).2 := by
  unfold handleLindex
  split
  · rename_i name key index
    cases hkey : key.bulk? with
    | none => exact .inl rfl
    | some key =>
      obtain rfl := bulk?_eq_some hkey
      simp only
      split
      · exact .inl rfl
      · split
        · exact .inr ⟨name, key, [index], rfl, purged_keyExists now key d⟩
        · exact .inl rfl
  · exact .inl rfl

theorem purgesNamed_hget : PurgesNamed now args d (handleHget now args d).2 := by
  apply purgesNamed_withTwo
  intro key field
  dsimp only
  split
  · cases hfound : (Database.keyExists now key d).1 with
    | false => simpa [hfound] using purged_keyExists now key d
    | true =>
      simp only [if_true, Database.keyExists_snd hfound, Database.type_snd hfound]
      exact .inl rfl
  · exact .inl rfl

theorem purgesNamed_zscore : PurgesNamed now args d (handleZscore now args d).2 := by
  apply purgesNamed_withTwo
  intro key member
  dsimp only
  split
  · split <;> exact purged_keyExists now key d
  · exact .inl rfl

theorem values?_ne_nil {rest : List RespValue} {values : List Bytes}
    (h : values? rest = some values) : values ≠ [] := by
  cases rest with
  | nil => simp [values?] at h
  | cons v vs =>
    intro hnil
    subst hnil
    cases hv : v.bulk? with
    | none => simp [values?, allBulk, hv] at h
    | some s => simp [values?, allBulk, hv] at h

theorem outcome_sadd (hcounted : ¬ Uncounted k (some .sadd) args d) :
    Outcome (Erases now k (some .sadd) args d) (Creates S k (some .sadd) args) k d
      (handleSadd args d).2 := by
  apply rel_withKeyAndRest (outcome_refl k _)
  intro name key rest members hargs hvalues
  show Outcome _ _ k d
    (if (Database.sadd key members d).1 > 0
      then Database.incrementModCount key (Database.sadd key members d).2
      else (Database.sadd key members d).2)
  split
  · refine outcome_write _ ?_ ?_
    · exact fun _ => rfl
    · intro hk
      subst hk
      exact ⟨name, rest, hargs, by rw [hvalues]; rfl⟩
  · rename_i hnone
    apply outcome_of_onlyAt key (.set key _ d)
    intro hk
    subst hk
    -- nothing was added: every member is there already, so only the type can have changed
    have hmem : ∀ m ∈ members, ((d.find? key).getD default).setVal.contains m = true := by
      apply USet.contains_of_size_insertMany_le
      simp only [Database.sadd, Database.writeThrough, UMap.find?_set_self, Option.getD_some] at hnone
      omega
    cases hv : d.find? key with
    | none =>
      obtain ⟨m, hm⟩ := List.exists_mem_of_ne_nil members (values?_ne_nil hvalues)
      have := hmem m hm
      rw [hv] at this
      cases this
    | some v =>
      rw [hv, Option.getD_some] at hmem
      have htype : v.type = .set := by
        by_contra htype
        exact hcounted ⟨name, rest, hargs, members, v, hvalues, hv, htype, hmem⟩
      have hself : { v with type := .set, setVal := USet.insertMany v.setVal members } = v := by
        rw [USet.insertMany_eq_self hmem, ← htype]
      refine .inl ?_
      show (d.set key _).find? key = _
      rw [UMap.find?_set_self, hv]
      exact congrArg some hself

theorem outcome_srem {P Q : Prop} : Outcome P Q k d (handleSrem args d).2 := by
  apply rel_withKeyAndRest (outcome_refl k _)
  intro name key rest members hargs hvalues
  refine outcome_remove .set 0 _ (· > 0) (by simp) ?_ ?_ rfl
  · exact fun _ => rfl
  · intro v hnot
    have hnone : ∀ m ∈ members, v.setVal.find? m = none := by
      intro m hm
      by_contra hsome
      have := UMap.size_eraseMany_lt_iff.mpr ⟨m, hm, Option.isSome_iff_ne_none.mpr hsome⟩
      simp only [gt_iff_lt] at hnot
      omega
    show { v with setVal := v.setVal.eraseMany members } = v
    rw [UMap.eraseMany_eq_self hnone]

theorem outcome_hdel {P Q : Prop} : Outcome P Q k d (handleHdel args d).2 := by
  apply rel_withKeyAndRest (outcome_refl k _)
  intro name key rest fields hargs hvalues
  refine outcome_remove .hash false _ (· = true) (by simp) ?_ ?_ rfl
  · exact fun _ => rfl
  · intro v hnot
    have hnone : ∀ f ∈ fields, v.hashVal.find? f = none := by
      intro f hf
      by_contra hsome
      have := UMap.size_eraseMany_lt_iff.mpr ⟨f, hf, Option.isSome_iff_ne_none.mpr hsome⟩
      exact hnot (decide_eq_true this)
    show { v with hashVal := v.hashVal.eraseMany fields } = v
    rw [UMap.eraseMany_eq_self hnone]

theorem modCount_foldl_zremOne (ms : List Bytes) (x : Bool × RedisValue S) :
    (ms.foldl Database.zremOne x).2.modCount = x.2.modCount := by
  induction ms generalizing x with
  | nil => rfl
  | cons m ms ih =>
    rw [List.foldl_cons, ih]
    unfold Database.zremOne
    split <;> rfl

theorem foldl_zremOne_of_absent {ms : List Bytes} {x : Bool × RedisValue S}
    (h : ∀ m ∈ ms, x.2.zsetMemberToScore.find? m = none) : ms.foldl Database.zremOne x = x := by
  induction ms with
  | nil => rfl
  | cons m ms ih =>
    have hm : Database.zremOne x m = x := by
      unfold Database.zremOne
      rw [h m (by simp)]
    rw [List.foldl_cons, hm]
    exact ih fun m' hm' => h m' (by simp [hm'])

theorem outcome_zrem {P Q : Prop} : Outcome P Q k d (handleZrem args d).2 := by
  apply rel_withKeyAndRest (outcome_refl k _)
  intro name key rest members hargs hvalues
  refine outcome_remove .zset false _ (· = true) (by simp) ?_ ?_ rfl
  · exact fun v => modCount_foldl_zremOne members (false, v)
  · intro v hnot
    have hnone : ∀ m ∈ members, v.zsetMemberToScore.find? m = none := by
      intro m hm
      by_contra hsome
      exact hnot ((foldl_zremOne_spec members (false, v)).1.mpr
        (.inr ⟨m, hm, Option.isSome_iff_ne_none.mpr hsome⟩))
    show (members.foldl Database.zremOne (false, v)).2 = v
    rw [foldl_zremOne_of_absent hnone]

omit [Score S] in
theorem namesKey_of_pairArgs (h : ∃ key rest, PairArgs key rest args) :
    ∃ key, NamesKey key args := by
  obtain ⟨key, rest, name, hargs, -⟩ := h
  exact ⟨key, name, rest, hargs⟩

theorem outcome_hset {P : Prop} (hcounted : ¬ Uncounted k (some .hset) args d) :
    Outcome P (Creates S k (some .hset) args) k d (handleHset args d).2 := by
  by_cases hkey : ∃ key, NamesKey key args
  · obtain ⟨key, name, rest, hargs⟩ := hkey
    subst hargs
    rcases handleHset_key (S := S) name key rest with ⟨⟨heven, hpairs⟩, hrun⟩ | ⟨-, r, hrun⟩
    · rw [hrun, foldl_hset key hpairs]
      split
      · rename_i hbad
        apply outcome_of_onlyAt key (.set key _ d)
        intro hk
        subst hk
        exact absurd ⟨name, rest, rfl, heven, hpairs, hbad⟩ hcounted
      · refine outcome_increment (.set key _ d) (UMap.find?_set_self _ _ _) ?_ ?_
        · unfold Database.getModCount
          cases d.find? key <;> rfl
        · intro hk _
          subst hk
          exact ⟨name, rest, rfl, heven, hpairs⟩
    · rw [hrun]
      exact outcome_refl k d
  · exact rel_of_refuses (outcome_refl k d) (handleHset_refuses (mt namesKey_of_pairArgs hkey))

theorem modCount_foldl_zaddOne (ps : List (S × Bytes)) (v : RedisValue S) :
    (ps.foldl Database.zaddOne v).modCount = v.modCount :=
  Database.foldl_zaddOne_keeps RedisValue.modCount (fun _ _ => rfl) ps v

theorem outcome_zadd {P : Prop} : Outcome P (Creates S k (some .zadd) args) k d
    (handleZadd args d).2 := by
  by_cases hkey : ∃ key, NamesKey key args
  · obtain ⟨key, name, rest, hargs⟩ := hkey
    subst hargs
    rcases handleZadd_key (S := S) name key rest with ⟨ps, hps, hrun⟩ | ⟨-, r, hrun⟩
    · rw [hrun]
      refine outcome_write _ ?_ ?_
      · exact fun v => modCount_foldl_zaddOne ps { v with type := .zset }
      · intro hk
        subst hk
        exact ⟨name, rest, rfl, ps, hps⟩
    · rw [hrun]
      exact outcome_refl k d
  · exact rel_of_refuses (outcome_refl k d) (handleZadd_refuses (mt namesKey_of_pairArgs hkey))

/-- The pushes write whatever the entry was. -/
theorem outcome_push {P : Prop} {cmd : Command} (hcmd : cmd = .lpush ∨ cmd = .rpush)
    {arity notBulkKey notBulkRest : String} {run : Bytes → List Bytes → Data S → Bytes × Data S}
    (write : List Bytes → RedisValue S → RedisValue S)
    (hwrite : ∀ values v, (write values v).modCount = v.modCount)
    (hrun : ∀ key values, (run key values d).2 =
      Database.incrementModCount key (Database.writeThrough (write values) key d)) :
    Outcome P (Creates S k (some cmd) args) k d
      (withKeyAndRest arity notBulkKey notBulkRest run args d).2 := by
  apply rel_withKeyAndRest (outcome_refl k _)
  intro name key rest values hargs hvalues
  rw [hrun]
  apply outcome_write _ (hwrite values)
  intro hk
  subst hk
  rcases hcmd with rfl | rfl
  · exact ⟨name, rest, hargs, by rw [hvalues]; rfl⟩
  · exact ⟨name, rest, hargs, by rw [hvalues]; rfl⟩

end Commands

/-! ### All commands -/

/-- The handlers that work on the data. -/
def Command.onData : Command → Bool
  | .multi | .exec | .discard | .watch | .unwatch => false
  | .subscribe | .publish | .unsubscribe => false
  | .eval | .evalsha | .script | .cluster | .info => false
  | _ => true

/-- The other handlers leave the data alone, `EXEC` and script calls apart. -/
theorem data_dispatch (env : Env Λ) (now : ℤ) {cmd : Command} (hdata : cmd.onData = false)
    (hexec : cmd ≠ .exec) (heval : cmd ≠ .eval) (hsha : cmd ≠ .evalsha) (args : Args)
    (s : Session S Λ) : (dispatch env now (some cmd) args s).2.world.data = s.world.data := by
  cases cmd with
  | multi =>
    show (handleMulti args s).2.world.data = _
    unfold handleMulti
    split
    · rfl
    · split <;> rfl
  | discard =>
    show (handleDiscard args s).2.world.data = _
    unfold handleDiscard
    split
    · rfl
    · split <;> rfl
  | watch =>
    show (handleWatch args s).2.world.data = _
    unfold handleWatch
    split
    · rfl
    · split <;> rfl
  | unwatch =>
    show (handleUnwatch args s).2.world.data = _
    unfold handleUnwatch
    split <;> rfl
  | subscribe =>
    show (handleSubscribe args s).2.world.data = _
    unfold handleSubscribe
    split <;> rfl
  | unsubscribe =>
    show (handleUnsubscribe args s).2.world.data = _
    unfold handleUnsubscribe
    split <;> rfl
  | publish =>
    show (handlePublish args s).2.world.data = _
    unfold handlePublish
    split
    · split <;> rfl
    · rfl
  | script =>
    show (handleScript args s).2.world.data = _
    unfold handleScript
    split
    · split
      · rfl
      · split
        · split <;> rfl
        · split
          · split <;> rfl
          · split <;> rfl
    · rfl
  | cluster | info => rfl
  | exec => exact absurd rfl hexec
  | eval => exact absurd rfl heval
  | evalsha => exact absurd rfl hsha
  | _ => cases hdata

/-- The reads that do not even look at the expiry, and `SAVE`. -/
def Command.inspects : Command → Bool
  | .lrange | .zrange | .zrevrange | .sinter | .sunion | .sdiff | .scard | .smembers => true
  | .hlen | .hkeys | .hvals | .hgetall | .zcard | .sismember | .zrank | .keys | .save => true
  | _ => false

theorem data_dispatch_of_inspects (env : Env Λ) (now : ℤ) {cmd : Command} (hcmd : cmd.inspects = true)
    (args : Args) (s : Session S Λ) :
    (dispatch env now (some cmd) args s).2.world.data = s.world.data := by
  cases cmd with
  | lrange | zrange | zrevrange => exact withRange_snd _ _ _ _ _ args _
  | sinter | sunion | sdiff => exact withKeys_snd _ _ _ args _
  | scard | smembers | hlen | hkeys | hvals | hgetall | zcard =>
    exact rel_withKey (R := (· = s.world.data)) rfl fun _ _ _ => rfl
  | sismember => exact rel_withTwo (R := (· = s.world.data)) rfl fun _ _ _ _ => rfl
  | zrank =>
    apply rel_withTwo (R := (· = s.world.data)) rfl
    intro name key member hargs
    dsimp only
    split <;> rfl
  | keys =>
    show (handleKeys args s.world.data).2 = _
    unfold handleKeys
    split <;> rfl
  | save =>
    show (handleSave args s).2.world.data = _
    unfold handleSave
    split
    · rfl
    · split <;> rfl
  | _ => cases hcmd

/-- Every command on the direct path that is neither `EXEC` nor a script call. -/
theorem outcome_dispatch (env : Env Λ) (now : ℤ) {k : Bytes} {cmd : Option Command} {args : Args}
    {s : Session S Λ} (hexec : cmd ≠ some .exec) (heval : cmd ≠ some .eval)
    (hsha : cmd ≠ some .evalsha) (hcounted : ¬ Uncounted k cmd args s.world.data) :
    Outcome (Erases now k cmd args s.world.data) (Creates S k cmd args) k s.world.data
      (dispatch env now cmd args s).2.world.data := by
  have hsame : ∀ {P Q : Prop} {d : Data S}, d = s.world.data →
      Outcome P Q k s.world.data d := fun h => .inl (by rw [h])
  cases cmd with
  | none => exact hsame rfl
  | some cmd =>
    cases cmd with
    | set => exact outcome_set
    | get => exact outcome_of_purgesNamed rfl purgesNamed_get
    | del => exact outcome_del
    | existsKey =>
      exact outcome_of_purgesNamed rfl (purgesNamed_withKey fun key => purged_keyExists now key _)
    | type => exact outcome_of_purgesNamed rfl purgesNamed_type
    | lpush =>
      refine outcome_push (.inl rfl) (fun values val =>
        { val with type := .list, listVal := values.reverse ++ val.listVal }) ?_ ?_
      · exact fun _ _ => rfl
      · exact fun _ _ => rfl
    | rpush =>
      refine outcome_push (.inr rfl) (fun values val =>
        { val with type := .list, listVal := val.listVal ++ values }) ?_ ?_
      · exact fun _ _ => rfl
      · exact fun _ _ => rfl
    | lpop | rpop =>
      apply rel_withKey (outcome_refl k _)
      intro name key hargs
      refine outcome_popReply _ ?_ ?_ fun hk => erases_of_expired rfl hargs hk
      · exact fun _ => rfl
      · exact fun _ => rfl
    | llen =>
      exact outcome_of_purgesNamed rfl
        (purgesNamed_withKey fun key => purged_ifTypedLive now .list 0 _ key _)
    | lindex => exact outcome_of_purgesNamed rfl purgesNamed_lindex
    | sadd => exact outcome_sadd hcounted
    | srem => exact outcome_srem
    | hset => exact outcome_hset hcounted
    | hget => exact outcome_of_purgesNamed rfl purgesNamed_hget
    | hdel => exact outcome_hdel
    | zadd => exact outcome_zadd
    | zrem => exact outcome_zrem
    | zscore => exact outcome_of_purgesNamed rfl purgesNamed_zscore
    | expire | pexpire =>
      apply rel_withDuration (outcome_refl k _)
      intro name key arg n hargs
      refine outcome_ifLive_write _ ?_ (fun hk => erases_of_expired rfl hargs hk) rfl
      exact fun _ => rfl
    | persist =>
      apply rel_withKey (outcome_refl k _)
      intro name key hargs
      refine outcome_ifLive_write _ ?_ (fun hk => erases_of_expired rfl hargs hk) rfl
      exact fun _ => rfl
    | ttl | pttl =>
      exact outcome_of_purgesNamed rfl (purgesNamed_withKey fun key => purged_ifLive now (-2) _ key _)
    | lrange | zrange | zrevrange | sinter | sunion | sdiff | scard | smembers | hlen | hkeys | hvals
    | hgetall | zcard | sismember | zrank | keys | save =>
      apply hsame
      refine data_dispatch_of_inspects env now ?_ args s
      rfl
    | multi | discard | watch | unwatch | subscribe | unsubscribe | publish | script | cluster | info =>
      apply hsame
      refine data_dispatch env now ?_ ?_ ?_ ?_ args s
      · rfl
      · nofun
      · nofun
      · nofun
    | exec => exact absurd rfl hexec
    | eval => exact absurd rfl heval
    | evalsha => exact absurd rfl hsha

end MinimalRedis
