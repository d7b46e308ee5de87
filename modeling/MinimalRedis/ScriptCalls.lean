import Mathlib.Data.List.TakeWhile
import MinimalRedis.ExpiredReads

/-!
# `GET` and `SET` from a script

`redis.call` has its own `GET` and `SET`.  They work **on C strings**, so keys and values are cut at
their first NUL, on the store and not on the handlers, so **no counter moves**, and an empty value is
given to the script as nil.

* `eval_setCall`, `runLua_getCall` — what a script that makes the one call leaves and gets;
* `script_set_get` — against the native commands: the counter never agrees, the stored bytes and the
  value read agree exactly when nothing is cut and the value is not empty.
-/

namespace MinimalRedis

open Lib LuaScriptingEngine

variable {S : Type} [Score S] {Λ : Type}

/-! ### C strings -/

theorem cstr_cstr (s : Bytes) : cstr (cstr s) = cstr s := List.takeWhile_idem

/-! ### Scripts that make one call -/

/-- The `i`-th entry of a table of strings. -/
def tableEntry (table : List Bytes) (i : ℕ) : LuaValue :=
  match table[i]? with
  | some s => .string s
  | none => .nil

/-- A chunk that ends with what its last call gave. -/
def LuaRun.ending (after : Except LuaValue LuaValue → Λ) (r : Except LuaValue LuaValue) : LuaRun Λ :=
  match r with
  | .ok x => .done (after r) x
  | .error err => .raised (after r) err

/-- The chunk loads, and makes one call with the arguments that `call` picks from its tables of keys
and arguments. -/
structure LuaVM.Forwards (vm : LuaVM Λ) (state : Λ) (script : Bytes)
    (call : List Bytes → List Bytes → List LuaValue) : Prop where
  valid : validateScript script = true
  loads : vm.load state (cstr script) = none
  runs : ∃ after, ∀ keys args,
    vm.run state (cstr script) keys args = .call (call keys args) (LuaRun.ending after)

/-- `redis.call('SET', keys[i], args[j])`, counted from zero. -/
def setCall (i j : ℕ) (keys args : List Bytes) : List LuaValue :=
  [.string (str "SET"), tableEntry keys i, tableEntry args j]

/-- `redis.call('GET', keys[i])`. -/
def getCall (i : ℕ) (keys _args : List Bytes) : List LuaValue :=
  [.string (str "GET"), tableEntry keys i]

theorem tableEntry_map_cstr {table : List Bytes} {i : ℕ} {s : Bytes} (h : table[i]? = some s) :
    tableEntry (table.map cstr) i = .string (cstr s) := by
  unfold tableEntry
  rw [List.getElem?_map, h]
  rfl

theorem redisPcall_set (now : ℤ) (k v : Bytes) (d : Data S) :
    redisPcall now [.string (str "SET"), .string k, .string v] d =
      some (.ok (.string (str "OK")), Database.set (cstr k) (cstr v) d) := rfl

theorem redisPcall_get (now : ℤ) (k : Bytes) (d : Data S) :
    redisPcall now [.string (str "GET"), .string k] d =
      some (.ok (if (Database.get now (cstr k) d).1 = [] then .nil
        else .string (cstr (Database.get now (cstr k) d).1)), (Database.get now (cstr k) d).2) := rfl

section Calls

variable {vm : LuaVM Λ} {e : LuaScriptingEngine Λ} {script : Bytes} {keys args : List Bytes} {i j : ℕ}
  {k v : Bytes}

/-- The data a script's `SET` leaves. -/
theorem eval_setCall (now : ℤ) (d : Data S) (hscript : vm.Forwards e.state script (setCall i j))
    (hk : keys[i]? = some k) (hv : args[j]? = some v) :
    ∃ reply e', eval vm now script keys args e d =
      some (reply, e', Database.set (cstr k) (cstr v) d) := by
  obtain ⟨after, hruns⟩ := hscript.runs
  have hcall : setCall i j (keys.map cstr) (args.map cstr) =
      [.string (str "SET"), .string (cstr k), .string (cstr v)] := by
    rw [setCall, tableEntry_map_cstr hk, tableEntry_map_cstr hv]
  unfold eval
  rw [hscript.valid, hscript.loads, hruns, hcall]
  simp only [Bool.not_true, Bool.false_eq_true, if_false, runLua, redisPcall_set, cstr_cstr,
    LuaRun.ending]
  exact ⟨_, _, rfl⟩

/-- The value a script's `GET` yields. -/
theorem runLua_getCall (now : ℤ) (d : Data S) (args : List Bytes)
    (hscript : vm.Forwards e.state script (getCall i)) (hk : keys[i]? = some k) :
    ∃ state d', runLua now (vm.run e.state (cstr script) (keys.map cstr) (args.map cstr)) d =
      some (.ok (if (Database.get now (cstr k) d).1 = [] then .nil
        else .string (cstr (Database.get now (cstr k) d).1)), state, d') := by
  obtain ⟨after, hruns⟩ := hscript.runs
  have hcall : getCall i (keys.map cstr) (args.map cstr) =
      [.string (str "GET"), .string (cstr k)] := by
    rw [getCall, tableEntry_map_cstr hk]
  rw [hruns, hcall]
  simp only [runLua, redisPcall_get, cstr_cstr, LuaRun.ending]
  exact ⟨_, _, rfl⟩

end Calls

/-! ### The native commands -/

/-- An entry without its counter. -/
def RedisValue.uncounted (v : RedisValue S) : RedisValue S := { v with modCount := 0 }

/-- The store holds `value` under `key`. -/
def Stores (key value : Bytes) (d : Data S) : Prop :=
  ∃ v, d.find? key = some v ∧ v.type = .string ∧ v.strVal = value

/-- What `SET` makes of an entry, the counter aside. -/
def written (value : Bytes) (old : Option (RedisValue S)) : RedisValue S :=
  { (old.getD default) with type := .string, strVal := value }

theorem find?_store_set (key value q : Bytes) (d : Data S) :
    (Database.set key value d).find? q =
      if q = key then some (written value (d.find? key)) else d.find? q := by
  rw [Database.set, Database.writeThrough, UMap.find?_set]
  rfl

theorem find?_handleSet (name : RespValue) (key value q : Bytes) (d : Data S) :
    (handleSet [name, .bulkString key, .bulkString value] d).2.find? q =
      if q = key then some (written value (d.find? key)).bump else d.find? q := by
  show (Database.incrementModCount key (Database.set key value d)).find? q = _
  have hkey : (Database.set key value d).find? key = some (written value (d.find? key)) := by
    rw [find?_store_set, if_pos rfl]
  rw [Database.incrementModCount, hkey]
  simp only [UMap.find?_set, find?_store_set]
  split <;> rfl

theorem modCount_written (value key : Bytes) (d : Data S) :
    (written value (d.find? key)).modCount = Database.getModCount key d := by
  unfold Database.getModCount
  cases d.find? key <;> rfl

theorem getModCount_store_set (key value q : Bytes) (d : Data S) :
    Database.getModCount q (Database.set key value d) = Database.getModCount q d := by
  by_cases hq : q = key
  · have hkey : (Database.set key value d).find? q = some (written value (d.find? q)) := by
      rw [find?_store_set, if_pos hq, hq]
    rw [Database.getModCount, hkey]
    exact modCount_written value q d
  · have hkey : (Database.set key value d).find? q = d.find? q := by
      rw [find?_store_set, if_neg hq]
    rw [Database.getModCount, hkey]
    rfl

theorem map_uncounted_written {value : Bytes} {key : Bytes} {d : Data S} :
    (d.find? key).map RedisValue.uncounted = some (written value (d.find? key)).uncounted ↔
      Stores key value d := by
  unfold Stores
  cases hv : d.find? key with
  | none => simp
  | some v =>
    simp only [Option.map_some, Option.some.injEq, written, Option.getD_some, RedisValue.uncounted,
      RedisValue.mk.injEq, true_and, and_true, exists_eq_left']

/-! ### Agreement -/

/-- The script leaves the database of the command `SET k v`, as far as `view` shows it. -/
def SetAgrees {α : Type} (view : RedisValue S → α) (vm : LuaVM Λ) (now : ℤ) (script : Bytes)
    (keys args : List Bytes) (e : LuaScriptingEngine Λ) (d : Data S) (k v : Bytes) : Prop :=
  ∃ x, eval vm now script keys args e d = some x ∧ ∀ q, (x.2.2.find? q).map view =
    ((handleSet [.bulkString (str "SET"), .bulkString k, .bulkString v] d).2.find? q).map view

/-- The script ends with nil when the command `GET k` replies null, otherwise with the same bytes. -/
def GetAgrees (vm : LuaVM Λ) (now : ℤ) (script : Bytes) (keys args : List Bytes)
    (e : LuaScriptingEngine Λ) (d : Data S) (k : Bytes) : Prop :=
  ∃ y state d', runLua now (vm.run e.state (cstr script) (keys.map cstr) (args.map cstr)) d =
      some (.ok y, state, d') ∧
    (y = .nil ↔ (handleGet now [.bulkString (str "GET"), .bulkString k] d).1 = nullBulk) ∧
    ((handleGet now [.bulkString (str "GET"), .bulkString k] d).1 ≠ nullBulk → ∃ b, y = .string b ∧
      (handleGet now [.bulkString (str "GET"), .bulkString k] d).1 = bulkReply b)

section Agreement

variable {vm : LuaVM Λ} {now : ℤ} {e : LuaScriptingEngine Λ} {d : Data S} {script : Bytes}
  {keys args : List Bytes} {i j : ℕ} {k v : Bytes}

theorem setAgrees_iff {α : Type} (view : RedisValue S → α)
    (hscript : vm.Forwards e.state script (setCall i j)) (hk : keys[i]? = some k)
    (hv : args[j]? = some v) :
    SetAgrees view vm now script keys args e d k v ↔
      ∀ q, ((Database.set (cstr k) (cstr v) d).find? q).map view =
        ((handleSet [.bulkString (str "SET"), .bulkString k, .bulkString v] d).2.find? q).map view := by
  obtain ⟨reply, e', heval⟩ := eval_setCall now d hscript hk hv
  unfold SetAgrees
  rw [heval]
  constructor
  · rintro ⟨x, hx, h⟩
    obtain rfl := Option.some.inj hx
    exact h
  · exact fun h => ⟨_, rfl, h⟩

/-- The native counter moves, the script's does not. -/
theorem not_setAgrees (hscript : vm.Forwards e.state script (setCall i j)) (hk : keys[i]? = some k)
    (hv : args[j]? = some v) : ¬ SetAgrees id vm now script keys args e d k v := by
  rw [setAgrees_iff id hscript hk hv]
  intro h
  have hkey := h k
  rw [Option.map_id, id, id, find?_handleSet, if_pos rfl] at hkey
  have hcount := getModCount_store_set (cstr k) (cstr v) k d
  rw [Database.getModCount, hkey] at hcount
  have hbump : Database.getModCount k d + 1 = Database.getModCount k d := by
    rw [← modCount_written v k d]
    exact hcount.trans (modCount_written v k d).symm
  simp at hbump

theorem setAgrees_uncounted_iff (hscript : vm.Forwards e.state script (setCall i j))
    (hk : keys[i]? = some k) (hv : args[j]? = some v) :
    SetAgrees RedisValue.uncounted vm now script keys args e d k v ↔
      (cstr k = k ∧ cstr v = v) ∨ (cstr k ≠ k ∧ Stores k v d ∧ Stores (cstr k) (cstr v) d) := by
  rw [setAgrees_iff _ hscript hk hv]
  simp only [find?_store_set, find?_handleSet]
  by_cases hcut : cstr k = k
  · rw [hcut]
    constructor
    · intro h
      have hkey := h k
      simp only [if_pos, Option.map_some, Option.some.injEq] at hkey
      exact .inl ⟨rfl, congrArg RedisValue.strVal hkey⟩
    · rintro (⟨-, hv'⟩ | ⟨hne, -⟩) q
      · rw [hv']
        split <;> rfl
      · exact absurd rfl hne
  · constructor
    · intro h
      have hkey := h k
      have hcstr := h (cstr k)
      rw [if_neg (Ne.symm hcut), if_pos rfl] at hkey
      rw [if_pos rfl, if_neg hcut] at hcstr
      exact .inr ⟨hcut, map_uncounted_written.mp hkey, map_uncounted_written.mp hcstr.symm⟩
    · rintro (⟨heq, -⟩ | ⟨-, hkey, hcstr⟩) q
      · exact absurd heq hcut
      · by_cases hq : q = k
        · rw [hq, if_neg (Ne.symm hcut), if_pos rfl]
          exact map_uncounted_written.mpr hkey
        · rw [if_neg hq]
          by_cases hq' : q = cstr k
          · rw [hq', if_pos rfl]
            exact (map_uncounted_written.mpr hcstr).symm
          · rw [if_neg hq']

/-- A script's `GET` reads the key as cut, gives nil for the empty string and cuts the value. -/
theorem getAgrees_iff (hscript : vm.Forwards e.state script (getCall i)) (hk : keys[i]? = some k) :
    GetAgrees vm now script keys args e d k ↔
      (stringAt now k d = none ∧ (stringAt now (cstr k) d).getD [] = []) ∨
        ∃ b, stringAt now (cstr k) d = some b ∧ b ≠ [] ∧ stringAt now k d = some (cstr b) := by
  obtain ⟨state, d', hrun⟩ := runLua_getCall now d args hscript hk
  have hyield : GetAgrees vm now script keys args e d k ↔
      ∃ y, (if (stringAt now (cstr k) d).getD [] = [] then LuaValue.nil
          else .string (cstr ((stringAt now (cstr k) d).getD []))) = y ∧
        (y = .nil ↔ stringAt now k d = none) ∧
        ∀ b, stringAt now k d = some b → y = .string b := by
    unfold GetAgrees
    rw [hrun, handleGet_eq_stringAt, get_eq_stringAt]
    cases hnative : stringAt now k d with
    | none => simp
    | some b =>
      have hbulk : ∀ c, bulkReply b = bulkReply c ↔ b = c := fun c =>
        ⟨fun h => (bulkReply_append_inj (x := []) (y := []) (by rw [h])).1, fun h => by rw [h]⟩
      simp [hbulk, bulkReply_ne_nullBulk]
  rw [hyield]
  cases hnative : stringAt now k d with
  | none =>
    cases hcut : stringAt now (cstr k) d with
    | none => simp
    | some b => by_cases hb : b = [] <;> simp [hb]
  | some a =>
    cases hcut : stringAt now (cstr k) d with
    | none => simp
    | some b =>
      by_cases hb : b = []
      · simp [hb]
      · simp [hb, eq_comm]

/-- Against the native commands: the counter **never** agrees, the stored entry when nothing is cut
(or both keys hold their values already), the value read when the key as cut holds a non-empty string
that shows the same bytes, or neither key holds anything to show. -/
theorem script_set_get (now : ℤ) (e : LuaScriptingEngine Λ) (d : Data S) (keys args : List Bytes)
    {getScript : Bytes} (hset : vm.Forwards e.state script (setCall i j))
    (hget : vm.Forwards e.state getScript (getCall i)) (hk : keys[i]? = some k)
    (hv : args[j]? = some v) :
    ¬ SetAgrees id vm now script keys args e d k v ∧
    (SetAgrees RedisValue.uncounted vm now script keys args e d k v ↔
      (cstr k = k ∧ cstr v = v) ∨ (cstr k ≠ k ∧ Stores k v d ∧ Stores (cstr k) (cstr v) d)) ∧
    (GetAgrees vm now getScript keys args e d k ↔
      (stringAt now k d = none ∧ (stringAt now (cstr k) d).getD [] = []) ∨
        ∃ b, stringAt now (cstr k) d = some b ∧ b ≠ [] ∧ stringAt now k d = some (cstr b)) :=
  ⟨not_setAgrees hset hk hv, setAgrees_uncounted_iff hset hk hv, getAgrees_iff hget hk⟩

end Agreement

/-! An interpreter for two scripts: one sets the first key to the first argument, the other reads the
first key. -/

def setScript : Bytes := str "local keys, args = ... return redis.call('SET', keys[1], args[1])"

def getScript : Bytes := str "local keys, args = ... return redis.call('GET', keys[1])"

def oneCallVM : LuaVM Unit where
  load _ _ := none
  run state script keys args :=
    .call (if script = setScript then setCall 0 0 keys args else getCall 0 keys args)
      (LuaRun.ending fun _ => state)

theorem oneCallVM_set : oneCallVM.Forwards () setScript (setCall 0 0) where
  valid := by decide
  loads := rfl
  runs := ⟨fun _ => (), fun keys args => by
    have hscript : cstr setScript = setScript := by decide
    simp only [oneCallVM, hscript, if_true]⟩

theorem oneCallVM_get : oneCallVM.Forwards () getScript (getCall 0) where
  valid := by decide
  loads := rfl
  runs := ⟨fun _ => (), fun keys args => by
    have hscript : cstr getScript ≠ setScript := by decide
    simp only [oneCallVM, if_neg hscript]⟩

/-- On the empty store the bytes of `k` and `v` agree, and so does a `GET`. -/
theorem script_set_get_empty :
    SetAgrees RedisValue.uncounted oneCallVM 0 setScript [str "k"] [str "v"] ⟨(), ∅⟩
      (∅ : Data NatScore) (str "k") (str "v") ∧
    GetAgrees oneCallVM 0 getScript [str "k"] [str "v"] ⟨(), ∅⟩ (∅ : Data NatScore) (str "k") := by
  have h := script_set_get 0 ⟨(), ∅⟩ (∅ : Data NatScore) [str "k"] [str "v"] oneCallVM_set
    oneCallVM_get rfl rfl
  exact ⟨h.2.1.mpr (.inl ⟨by decide, by decide⟩), h.2.2.mpr (.inl ⟨rfl, rfl⟩)⟩

/-- `SET k v` counts one change, the script's none; of a value with a NUL the script reads a part. -/
theorem script_set_uncounted :
    ((eval oneCallVM 0 setScript [str "k"] [str "v"] ⟨(), ∅⟩ (∅ : Data NatScore)).map fun x =>
        Database.getModCount (str "k") x.2.2) = some 0 ∧
    Database.getModCount (str "k") (handleSet [.bulkString (str "SET"), .bulkString (str "k"),
      .bulkString (str "v")] (∅ : Data NatScore)).2 = 1 ∧
    ¬ SetAgrees id oneCallVM 0 setScript [str "k"] [str "v"] ⟨(), ∅⟩ (∅ : Data NatScore) (str "k")
      (str "v") ∧
    ¬ GetAgrees oneCallVM 0 getScript [str "k"] [] ⟨(), ∅⟩
      (Database.set (str "k") [97, 0, 98] (∅ : Data NatScore)) (str "k") := by
  refine ⟨by decide, by decide, not_setAgrees oneCallVM_set rfl rfl, ?_⟩
  rw [getAgrees_iff oneCallVM_get rfl]
  decide

end MinimalRedis
