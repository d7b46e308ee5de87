import MinimalRedis.Watch

/-!
# Changes of live entries

The counter of an entry is bumped by hand, in each handler under its own condition.  A `DataStep` is
what a client or a script does to the data in one go: a handler at work, on the direct path or for a
queued command, or one `redis.call`.

* `SameLiveAt now k d d'` — the live entry at `k` has the same type, contents and expiry, or there is
  none in both;
* `Silent` — the steps that change the live entry at `k` and leave its counter: a `SADD` that adds no
  member **but changes the type**, an `HSET` that fails midway, a `DEL` of an entry whose counter is
  zero, and a script's `SET`;
* `counted_iff` — these and no others;
* `stepsMany_processCommand` — commands change the data through steps only.
-/

namespace MinimalRedis

open Lib Session

variable {S : Type} [Score S] {Λ : Type}

/-! ### Live entries -/

/-- `k` is live in both or in neither, with the same type, contents and expiry. -/
def SameLiveAt (now : ℤ) (k : Bytes) (d d' : Data S) : Prop :=
  SameView k (purge now d) (purge now d') ∧
    ((purge now d).find? k).map RedisValue.expiryTime =
      ((purge now d').find? k).map RedisValue.expiryTime

section Live

variable {now : ℤ} {k : Bytes} {d d' : Data S} {v w : RedisValue S}

theorem sameLiveAt_of_purge (h : (purge now d').find? k = (purge now d).find? k) :
    SameLiveAt now k d d' := ⟨sameView_of_find? h, by rw [h]⟩

theorem sameLiveAt_of_find? (h : d'.find? k = d.find? k) : SameLiveAt now k d d' := by
  apply sameLiveAt_of_purge
  rw [find?_purge, find?_purge, h]

/-- An expired entry that is lost, or stays expired. -/
theorem sameLiveAt_of_expired (hv : Expired now k d)
    (hw : ∀ w, d'.find? k = some w → w.isExpired now = true) : SameLiveAt now k d d' := by
  obtain ⟨v, hv, hexp⟩ := hv
  apply sameLiveAt_of_purge
  rw [find?_purge_of_expired hv hexp]
  cases hfind : d'.find? k with
  | none => exact find?_purge_of_none hfind
  | some w => exact find?_purge_of_expired hfind (hw w hfind)

/-- A live entry that keeps its expiry. -/
theorem sameLiveAt_iff_of_live (hv : d.find? k = some v) (hlive : v.isExpired now = false)
    (hw : d'.find? k = some w) (hexpiry : w.expiryTime = v.expiryTime) :
    SameLiveAt now k d d' ↔ v.type = w.type ∧ SamePayload v.type v w := by
  have hlive' : w.isExpired now = false := by rw [RedisValue.isExpired_congr hexpiry, hlive]
  unfold SameLiveAt SameView
  rw [find?_purge_of_live hv hlive, find?_purge_of_live hw hlive']
  simp [hexpiry]

theorem not_sameLiveAt_of_created (hv : d.find? k = none) (hw : d'.find? k = some w)
    (hlive : w.isExpired now = false) : ¬ SameLiveAt now k d d' := by
  unfold SameLiveAt SameView
  rw [find?_purge_of_none hv, find?_purge_of_live hw hlive]
  exact fun h => h.1

theorem not_sameLiveAt_of_lost (hv : d.find? k = some v) (hlive : v.isExpired now = false)
    (hw : d'.find? k = none) : ¬ SameLiveAt now k d d' := by
  unfold SameLiveAt SameView
  rw [find?_purge_of_live hv hlive, find?_purge_of_none hw]
  exact fun h => h.1

/-- A write through `data[key]` that keeps the expiry is seen unless the entry has expired or looks the
same after it. -/
theorem sameLiveAt_write_iff (now : ℤ) (k : Bytes) (d : Data S) (write : RedisValue S → RedisValue S)
    (hwrite : ∀ v, (write v).expiryTime = v.expiryTime) :
    SameLiveAt now k d (Database.writeThrough write k d) ↔
      ∃ v, d.find? k = some v ∧
        (v.isExpired now = true ∨ v.type = (write v).type ∧ SamePayload v.type v (write v)) := by
  have hfind : (Database.writeThrough write k d).find? k = some (write ((d.find? k).getD default)) :=
    UMap.find?_set_self ..
  cases hv : d.find? k with
  | none =>
    rw [hv, Option.getD_none] at hfind
    constructor
    · intro h
      refine absurd h (not_sameLiveAt_of_created hv hfind ?_)
      exact RedisValue.isExpired_of_expiryTime_zero (hwrite default) now
    · intro h
      obtain ⟨v, hv', -⟩ := h
      cases hv'
  | some v =>
    rw [hv, Option.getD_some] at hfind
    cases hexp : v.isExpired now with
    | true =>
      constructor
      · exact fun _ => ⟨v, rfl, .inl hexp⟩
      · intro _
        refine sameLiveAt_of_expired ⟨v, hv, hexp⟩ ?_
        intro w hw
        rw [hfind, Option.some.injEq] at hw
        rw [← hw, RedisValue.isExpired_congr (hwrite v), hexp]
    | false =>
      rw [sameLiveAt_iff_of_live hv hexp hfind (hwrite v)]
      constructor
      · exact fun h => ⟨v, rfl, .inr h⟩
      · intro h
        obtain ⟨v', hv', hexp' | hsame⟩ := h
        · obtain rfl : v = v' := Option.some.inj hv'
          rw [hexp] at hexp'
          cases hexp'
        · obtain rfl : v = v' := Option.some.inj hv'
          exact hsame

end Live

/-! ### Steps -/

/-- A command at its handler, or a call that a script makes. -/
inductive DataStep where
  | command (cmd : Option Command) (args : Args)
  | call (args : List LuaValue)

/-- What a step makes of the data.  `EXEC` and the script calls are no steps: they consist of the steps
of their queue or script. -/
inductive Steps (env : Env Λ) (now : ℤ) : DataStep → Data S → Data S → Prop where
  | command {cmd : Option Command} {args : Args} (s : Session S Λ) : cmd ≠ some .exec →
      cmd ≠ some .eval → cmd ≠ some .evalsha →
      Steps env now (.command cmd args) s.world.data (dispatch env now cmd args s).2.world.data
  | call {args : List LuaValue} {d : Data S} {x : Except LuaValue LuaValue × Data S} :
      LuaScriptingEngine.redisPcall now args d = some x → Steps env now (.call args) d x.2

/-- The step changes the live entry at `k` and leaves its counter. -/
def Silent (now : ℤ) (k : Bytes) : DataStep → Data S → Prop
  | .command (some .sadd) args, d => ∃ name rest members v, args = name :: .bulkString k :: rest ∧
      values? rest = some members ∧ d.find? k = some v ∧ v.isExpired now = false ∧ v.type ≠ .set ∧
      ∀ m ∈ members, v.setVal.contains m = true
  | .command (some .hset) args, d => ∃ name rest, args = name :: .bulkString k :: rest ∧
      rest.length % 2 = 0 ∧ allBulk rest = none ∧ leadingPairs rest ≠ [] ∧
      ¬ HsetHidden now k (leadingPairs rest) d
  | .command (some .del) args, d => ∃ name v, args = [name, .bulkString k] ∧ d.find? k = some v ∧
      v.isExpired now = false ∧ v.modCount = 0
  | .call args, d => ∃ cmd key value rest text, args = cmd :: key :: value :: rest ∧
      cmd.toString? = some (str "SET") ∧ key.toString? = some k ∧ value.toString? = some text ∧
      ∀ v, d.find? k = some v → v.isExpired now = false ∧ (v.type = .string → v.strVal ≠ text)
  | _, _ => False

/-! ### Silent changes -/

section Silent

variable {env : Env Λ} {now : ℤ} {k : Bytes} {d : Data S}

/-- A `SADD` without new members only sets the type. -/
theorem data_sadd_of_present (name : RespValue) {rest : List RespValue} {members : List Bytes}
    {v : RedisValue S} (hvalues : values? rest = some members) (hv : d.find? k = some v)
    (hmem : ∀ m ∈ members, v.setVal.contains m = true) :
    (handleSadd (name :: .bulkString k :: rest) d).2 =
      Database.writeThrough (fun v => { v with type := .set }) k d := by
  have hsame : USet.insertMany v.setVal members = v.setVal := USet.insertMany_eq_self hmem
  have hsadd : Database.sadd k members d =
      (0, Database.writeThrough (fun v => { v with type := .set }) k d) := by
    simp only [Database.sadd, Database.writeThrough, hv, Option.getD_some, hsame, UMap.find?_set_self,
      Nat.sub_self]
  rcases withKeyAndRest_key (S := S) "ERR SADD requires at least 2 arguments"
      "ERR SADD key must be a bulk string" "ERR SADD members must be bulk strings"
      (fun key members d =>
        let added := Database.sadd key members d
        (intReply added.1,
          if added.1 > 0 then Database.incrementModCount key added.2 else added.2)) name k rest with
    ⟨members', hvalues', hrun⟩ | ⟨hnone, -⟩
  · obtain rfl : members = members' := Option.some.inj (hvalues.symm.trans hvalues')
    rw [handleSadd, hrun]
    show (if (Database.sadd k members d).1 > 0 then _ else (Database.sadd k members d).2) = _
    rw [hsadd, if_neg (by simp)]
  · rw [hvalues] at hnone
    cases hnone

/-- An `HSET` that fails after its first pairs has entered them. -/
theorem data_hset_of_bad (name : RespValue) {rest : List RespValue} (heven : rest.length % 2 = 0)
    (hbad : allBulk rest = none) (hpairs : leadingPairs rest ≠ []) :
    (handleHset (name :: .bulkString k :: rest) d).2 = Database.writeThrough
      (fun v => { v with type := .hash, hashVal := v.hashVal.setMany (leadingPairs rest) }) k d := by
  rcases handleHset_key (S := S) name k rest with ⟨-, hrun⟩ | ⟨hnot, -⟩
  · rw [hrun, if_pos hbad, foldl_hset k hpairs]
    rfl
  · exact absurd ⟨heven, hpairs⟩ hnot

/-- Pairs entered at `k` are seen unless `HsetHidden`. -/
theorem sameLiveAt_hset_iff {pairs : List (Bytes × Bytes)} :
    SameLiveAt now k d (Database.writeThrough
        (fun v => { v with type := .hash, hashVal := v.hashVal.setMany pairs }) k d) ↔
      HsetHidden now k pairs d := by
  rw [sameLiveAt_write_iff now k d
    (fun v => { v with type := .hash, hashVal := v.hashVal.setMany pairs }) fun _ => rfl]
  unfold HsetHidden
  refine exists_congr fun v => and_congr_right fun _ => or_congr_right (and_congr_right ?_)
  intro htype
  rw [htype]
  show (∀ f, v.hashVal.find? f = (v.hashVal.setMany pairs).find? f) ↔ _
  constructor
  · intro hsame f x hx
    rw [hsame f, UMap.find?_setMany, hx]
    rfl
  · intro hsame f
    rw [UMap.setMany_eq_self_iff.mpr hsame]

theorem getModCount_write (k : Bytes) (d : Data S) (write : RedisValue S → RedisValue S)
    (hwrite : ∀ v, (write v).modCount = v.modCount) :
    Database.getModCount k (Database.writeThrough write k d) = Database.getModCount k d := by
  unfold Database.writeThrough
  rw [getModCount_of_find? (UMap.find?_set_self d k _), hwrite]
  unfold Database.getModCount
  cases d.find? k <;> rfl

theorem find?_del (name : RespValue) (d : Data S) :
    (handleDel now [name, .bulkString k] d).2.find? k = none := UMap.find?_erase_self _ k

/-- A `SET` of a script is seen unless the entry has expired or has the text already. -/
theorem sameLiveAt_set_iff {text : Bytes} :
    SameLiveAt now k d (Database.set k text d) ↔
      ∃ v, d.find? k = some v ∧ (v.isExpired now = true ∨ v.type = .string ∧ v.strVal = text) := by
  refine (sameLiveAt_write_iff now k d
    (fun v => { v with type := .string, strVal := text }) fun _ => rfl).trans ?_
  refine exists_congr fun v => and_congr_right fun _ => or_congr_right (and_congr_right ?_)
  intro htype
  rw [htype]
  exact Iff.rfl

/-- A silent step changes the live entry and leaves its counter. -/
theorem silent_changes {step : DataStep} {d' : Data S} (h : Steps env now step d d')
    (hsilent : Silent now k step d) :
    ¬ SameLiveAt now k d d' ∧ Database.getModCount k d' = Database.getModCount k d := by
  cases h with
  | command s hexec heval hsha =>
    unfold Silent at hsilent
    split at hsilent
    · rename_i args _ hstep
      cases hstep
      obtain ⟨name, rest, members, v, rfl, hvalues, hv, hlive, htype, hmem⟩ := hsilent
      show ¬ SameLiveAt now k s.world.data (handleSadd _ s.world.data).2 ∧
        Database.getModCount k (handleSadd _ s.world.data).2 = _
      rw [data_sadd_of_present name hvalues hv hmem]
      refine ⟨?_, getModCount_write k _ (fun v => { v with type := .set }) fun _ => rfl⟩
      intro hsame
      obtain ⟨v', hv', hexp | ⟨htype', -⟩⟩ := (sameLiveAt_write_iff now k _
        (fun v => { v with type := .set }) fun _ => rfl).mp hsame
      · obtain rfl : v = v' := Option.some.inj (hv.symm.trans hv')
        rw [hlive] at hexp
        cases hexp
      · obtain rfl : v = v' := Option.some.inj (hv.symm.trans hv')
        exact htype htype'
    · rename_i args _ hstep
      cases hstep
      obtain ⟨name, rest, rfl, heven, hbad, hpairs, hseen⟩ := hsilent
      show ¬ SameLiveAt now k s.world.data (handleHset _ s.world.data).2 ∧
        Database.getModCount k (handleHset _ s.world.data).2 = _
      rw [data_hset_of_bad name heven hbad hpairs, sameLiveAt_hset_iff]
      refine ⟨hseen, getModCount_write k _ _ ?_⟩
      exact fun _ => rfl
    · rename_i args _ hstep
      cases hstep
      obtain ⟨name, v, rfl, hv, hlive, hzero⟩ := hsilent
      have hnone : (handleDel now [name, .bulkString k] s.world.data).2.find? k = none :=
        find?_del name s.world.data
      refine ⟨not_sameLiveAt_of_lost hv hlive hnone, ?_⟩
      rw [getModCount_of_find? hv, hzero]
      show Database.getModCount k (handleDel now [name, .bulkString k] s.world.data).2 = 0
      unfold Database.getModCount
      rw [hnone]
    · rename_i hstep
      cases hstep
    · cases hsilent
  | call hx =>
    obtain ⟨cmd, key, value, rest, text, rfl, hcmd, hkey, hvalue, hseen⟩ := hsilent
    have hne : decide (str "SET" = str "GET") = false := by decide
    simp only [LuaScriptingEngine.redisPcall, hcmd, hne, decide_true, hkey, hvalue, Option.bind_some,
      Option.map_some, Option.some.injEq] at hx
    rw [← hx]
    refine ⟨?_, getModCount_write k d (fun v => { v with type := .string, strVal := text })
      fun _ => rfl⟩
    rw [sameLiveAt_set_iff]
    intro hsame
    obtain ⟨v, hv, hsame⟩ := hsame
    obtain ⟨hlive, hdiffers⟩ := hseen v hv
    rcases hsame with hexp | ⟨htype, htext⟩
    · rw [hlive] at hexp
      cases hexp
    · exact hdiffers htype htext

theorem add_one_ne (n : UInt64) : n + 1 ≠ n := by
  intro h
  simp at h

/-- The uncounted commands that are not silent are not seen. -/
theorem sameLiveAt_of_uncounted {cmd : Option Command} {args : Args} {s : Session S Λ}
    (huncounted : Uncounted k cmd args s.world.data)
    (hsilent : ¬ Silent now k (.command cmd args) s.world.data) :
    SameLiveAt now k s.world.data (dispatch env now cmd args s).2.world.data := by
  obtain ⟨name, rest, rfl, hkind⟩ := huncounted
  split at hkind
  · obtain ⟨members, v, hvalues, hv, htype, hmem⟩ := hkind
    show SameLiveAt now k s.world.data (handleSadd _ s.world.data).2
    rw [data_sadd_of_present name hvalues hv hmem,
      sameLiveAt_write_iff now k _ (fun v => { v with type := .set }) fun _ => rfl]
    refine ⟨v, hv, .inl ?_⟩
    by_contra hlive
    exact hsilent ⟨name, rest, members, v, rfl, hvalues, hv, Bool.not_eq_true _ ▸ hlive, htype, hmem⟩
  · obtain ⟨heven, hpairs, hbad⟩ := hkind
    show SameLiveAt now k s.world.data (handleHset _ s.world.data).2
    rw [data_hset_of_bad name heven hbad hpairs, sameLiveAt_hset_iff]
    by_contra hseen
    exact hsilent ⟨name, rest, rfl, heven, hbad, hpairs, hseen⟩
  · cases hkind

/-- A `DEL` that takes a live entry whose counter is not zero. -/
theorem getModCount_del_ne {args : Args} {v : RedisValue S} (hnames : NamesKey k args)
    (hsilent : ¬ Silent now k (.command (some .del) args) d) (hv : d.find? k = some v)
    (hlive : v.isExpired now = false) (hnone : (handleDel now args d).2.find? k = none) :
    Database.getModCount k (handleDel now args d).2 ≠ Database.getModCount k d := by
  obtain ⟨name, rest, rfl⟩ := hnames
  rcases withKey_key (S := S) "ERR DEL requires exactly 1 argument"
      "ERR DEL argument must be a bulk string" _ name k rest with ⟨rfl, -⟩ | ⟨-, r, hrun⟩
  · intro hcount
    apply hsilent
    refine ⟨name, v, rfl, hv, hlive, ?_⟩
    rw [← getModCount_of_find? hv, ← hcount]
    unfold Database.getModCount
    rw [hnone]
  · rw [handleDel, hrun, hv] at hnone
    cases hnone

/-- Every other step that changes the live entry counts it. -/
theorem counted_of_not_silent {step : DataStep} {d' : Data S} (h : Steps env now step d d')
    (hsilent : ¬ Silent now k step d) (hchanged : ¬ SameLiveAt now k d d') :
    Database.getModCount k d' ≠ Database.getModCount k d := by
  cases h with
  | @command cmd args s hexec heval hsha =>
    by_cases huncounted : Uncounted k cmd args s.world.data
    · exact absurd (sameLiveAt_of_uncounted huncounted hsilent) hchanged
    · rcases outcome_dispatch env now hexec heval hsha huncounted with
        hsame | ⟨⟨hnames, hlost⟩, hnone⟩ | ⟨w, hw, hcount, -⟩
      · exact absurd (sameLiveAt_of_find? hsame) hchanged
      · have hgone : Expired now k s.world.data → False := by
          intro hexp
          refine hchanged (sameLiveAt_of_expired hexp ?_)
          intro w hw
          rw [hnone] at hw
          cases hw
        cases hv : s.world.data.find? k with
        | none => exact absurd (sameLiveAt_of_find? (hnone.trans hv.symm)) hchanged
        | some v =>
          have hlive : v.isExpired now = false := by
            by_contra hexp
            exact hgone ⟨v, hv, by simpa using hexp⟩
          rcases hlost with rfl | ⟨-, hexp⟩
          · exact getModCount_del_ne hnames hsilent hv hlive hnone
          · exact absurd hexp hgone
      · rw [getModCount_of_find? hw, hcount]
        exact add_one_ne _
  | @call args d x hx =>
    rcases redisPcall_cases hx with
      hdata | ⟨cmd, key, rest, name, -, -, hdata⟩ |
        ⟨cmd, key, value, rest, name, text, rfl, hcmd, hkey, hvalue, hdata⟩
    · rw [hdata] at hchanged
      exact absurd (sameLiveAt_of_find? rfl) hchanged
    · -- a `GET` loses expired entries only
      rw [hdata] at hchanged
      refine absurd ?_ hchanged
      have hpurged : Purged now name d (Database.get now name d).2 :=
        purged_ifTypedLive now .string [] _ name d
      by_cases hk : name = k
      · subst hk
        rcases hpurged with heq | ⟨hexp, heq⟩
        · exact sameLiveAt_of_find? (by rw [heq])
        · refine sameLiveAt_of_expired hexp ?_
          intro w hw
          rw [heq, UMap.find?_erase_self] at hw
          cases hw
      · exact sameLiveAt_of_find? (OnlyAt.of_purged hpurged k (Ne.symm hk))
    · rw [hdata] at hchanged
      refine absurd ?_ hchanged
      by_cases hk : name = k
      · subst hk
        rw [sameLiveAt_set_iff]
        by_contra hseen
        apply hsilent
        refine ⟨cmd, key, value, rest, text, rfl, hcmd, hkey, hvalue, ?_⟩
        intro v hv
        constructor
        · by_contra hexp
          exact hseen ⟨v, hv, .inl (by simpa using hexp)⟩
        · intro htype htext
          exact hseen ⟨v, hv, .inr ⟨htype, htext⟩⟩
      · exact sameLiveAt_of_find? (UMap.find?_set_ne d _ (Ne.symm hk))

end Silent

/-- For every step, time, key and data: a change of the live entry is counted unless the step is
silent. -/
theorem counted_iff (env : Env Λ) (now : ℤ) (k : Bytes) (step : DataStep) (d d' : Data S)
    (hstep : Steps env now step d d') :
    (¬ SameLiveAt now k d d' → Database.getModCount k d' ≠ Database.getModCount k d) ↔
      ¬ Silent now k step d := by
  constructor
  · intro hcounted hsilent
    obtain ⟨hchanged, hcount⟩ := silent_changes hstep hsilent
    exact hcounted hchanged hcount
  · exact fun hsilent hchanged => counted_of_not_silent hstep hsilent hchanged

/-- A `SET` of a missing key is seen, and counted. -/
theorem counted_set :
    let args := [.bulkString (str "SET"), .bulkString [107], .bulkString [118]]
    let d' := (dispatch Env.standalone 0 (some .set) args (Session.fresh (∅ : Data NatScore))).2.world.data
    Steps Env.standalone 0 (.command (some .set) args) (∅ : Data NatScore) d' ∧
      ¬ SameLiveAt 0 [107] ∅ d' ∧
      Database.getModCount [107] d' ≠ Database.getModCount [107] (∅ : Data NatScore) := by
  intro args d'
  have hstep : Steps Env.standalone 0 (.command (some .set) args) (∅ : Data NatScore) d' :=
    .command (Session.fresh ∅) nofun nofun nofun
  have hchanged : ¬ SameLiveAt 0 [107] ∅ d' := fun hsame => hsame.1
  exact ⟨hstep, hchanged, (counted_iff Env.standalone 0 [107] _ ∅ d' hstep).mpr id hchanged⟩

/-- The string `v` at `k`, which `SADD k m` and `SET k v` have left there. -/
def stringOverSet : Data NatScore :=
  ((System.fresh ∅).run .standalone [request 0 ["SADD", "k", "m"], request 0 ["SET", "k", "v"]]).world.data

/-- `SADD k m` makes a set of the string again, adds nothing and counts nothing. -/
theorem sadd_changes_type_silently :
    ¬ ∀ (env : Env Unit) (now : ℤ) (k : Bytes) (step : DataStep) (d d' : Data NatScore),
      Steps env now step d d' → ¬ SameLiveAt now k d d' →
        Database.getModCount k d' ≠ Database.getModCount k d := by
  intro h
  refine h Env.standalone 0 (str "k")
    (.command (some .sadd) [.bulkString (str "SADD"), .bulkString (str "k"), .bulkString (str "m")])
    stringOverSet _ (.command (Session.fresh stringOverSet) nofun nofun nofun) ?_ (by decide)
  intro hsame
  have htype : RedisType.string = RedisType.set := hsame.1.1
  cases htype

/-! ### Commands are made of steps -/

section Composition

variable {env : Env Λ} {now : ℤ}

/-- The calls of a script, one after the other. -/
def CallsMany (now : ℤ) : Data S → Data S → Prop :=
  Relation.ReflTransGen fun d d' => ∃ args x, LuaScriptingEngine.redisPcall now args d = some x ∧ x.2 = d'

theorem callsMany_runLua {r : LuaRun Λ} {d : Data S} {x : Except LuaValue LuaValue × Λ × Data S}
    (hx : LuaScriptingEngine.runLua now r d = some x) : CallsMany now d x.2.2 := by
  induction r generalizing d with
  | done state result =>
    obtain rfl := Option.some.inj hx
    exact .refl
  | raised state err =>
    obtain rfl := Option.some.inj hx
    exact .refl
  | call args c ih =>
    rw [LuaScriptingEngine.runLua] at hx
    split at hx
    · cases hx
    · rename_i y hy
      exact .head ⟨args, y, hy, rfl⟩ (ih y.1 hx)
  | log arg r ih =>
    rw [LuaScriptingEngine.runLua] at hx
    split at hx
    · cases hx
    · exact ih hx

theorem callsMany_eval (vm : LuaVM Λ) (script : Bytes) (keys args : List Bytes) (s : Session S Λ) :
    CallsMany now s.world.data (scriptOutcome s
      (LuaScriptingEngine.eval vm now script keys args s.self.engine s.world.data)).2.world.data := by
  rcases data_eval_cases vm now script keys args s with hsame | ⟨x, hrun, hdata⟩
  · rw [hsame]
    exact .refl
  · rw [hdata]
    exact callsMany_runLua hrun

theorem callsMany_handleEval (vm : LuaVM Λ) (args : Args) (s : Session S Λ) :
    CallsMany now s.world.data (handleEval vm now args s).2.world.data := by
  rcases handleEval_cases vm now args s with hs | ⟨script, keys, scriptArgs, -, hs⟩
  · rw [hs]
    exact .refl
  · rw [hs]
    exact callsMany_eval vm script keys scriptArgs s

theorem callsMany_handleEvalsha (vm : LuaVM Λ) (args : Args) (s : Session S Λ) :
    CallsMany now s.world.data (handleEvalsha vm now args s).2.world.data := by
  rcases handleEvalsha_cases vm now args s with
    hs | ⟨sha, keys, scriptArgs, script, -, -, hs⟩
  · rw [hs]
    exact .refl
  · rw [hs]
    exact callsMany_eval vm script keys scriptArgs s

/-- Steps in a row. -/
def StepsMany (env : Env Λ) (now : ℤ) : Data S → Data S → Prop :=
  Relation.ReflTransGen fun d d' => ∃ step, Steps env now step d d'

theorem stepsMany_of_callsMany {d d' : Data S} (h : CallsMany now d d') : StepsMany env now d d' := by
  refine Relation.ReflTransGen.mono ?_ d d' h
  intro d d' hcall
  obtain ⟨args, x, hx, rfl⟩ := hcall
  exact ⟨.call args, .call hx⟩

theorem stepsMany_execLoop (queue : List TransactionCommand) (s : Session S Λ) :
    StepsMany env now s.world.data (execLoop now queue s).2.world.data := by
  induction queue generalizing s with
  | nil => exact .refl
  | cons tx queue ih =>
    have hstep : Steps env now (.command (queuedCommand tx) tx.args) s.world.data
        (executeFunc now tx s).2.world.data := by
      rw [executeFunc_eq_dispatch env]
      exact .command s (queuedCommand_ne rfl) (queuedCommand_ne rfl) (queuedCommand_ne rfl)
    exact .head ⟨_, hstep⟩ (ih _)

theorem stepsMany_dispatch (cmd : Option Command) (args : Args) (s : Session S Λ) :
    StepsMany env now s.world.data (dispatch env now cmd args s).2.world.data := by
  by_cases hexec : cmd = some .exec
  · subst hexec
    show StepsMany env now _ (handleExec now args s).2.world.data
    unfold handleExec
    split
    · exact .refl
    · split
      · exact .refl
      · split
        · exact .refl
        · exact stepsMany_execLoop _ s
  · by_cases heval : cmd = some .eval
    · subst heval
      exact stepsMany_of_callsMany (callsMany_handleEval env.vm args s)
    · by_cases hsha : cmd = some .evalsha
      · subst hsha
        exact stepsMany_of_callsMany (callsMany_handleEvalsha env.vm args s)
      · exact .single ⟨_, .command s hexec heval hsha⟩

/-- Whatever a client sends, the data change through steps only. -/
theorem stepsMany_processCommand (env : Env Λ) (now : ℤ) (command : RespValue) (s : Session S Λ) :
    StepsMany env now s.world.data (processCommand env now command s).2.world.data := by
  unfold processCommand
  split
  · dsimp only
    split
    · exact .refl
    · unfold routeAndDispatch
      split
      · exact .refl
      · exact stepsMany_dispatch _ _ s
  · exact .refl
  · exact .refl

end Composition

end MinimalRedis
