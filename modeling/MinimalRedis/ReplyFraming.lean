import MinimalRedis.Capacity
import MinimalRedis.CommandBytes
import MinimalRedis.RespStrict

/-!
# Replies are framed

Each handler writes its lengths, counts and line ends by hand.  `Framed reply` says that the bytes
are the wire form of one value that the parser can hold, whatever bytes the keys, members, fields and
values consist of.  There is one lemma for each argument shape and one for each handler of the
closure table: the reply is framed and the store grows by no more than the arguments (`Served`), so
that the next command of a transaction finds its counts in range.
-/

namespace MinimalRedis

open Lib Session

variable {S : Type} [Score S] {Λ : Type}

/-! ### Replies -/

/-- The bytes are the wire form of one value, with no array wider than a `std::vector`. -/
def Framed (reply : Bytes) : Prop := ∃ v, Wire v reply ∧ v.widest ≤ RespParser.vectorMaxSize

/-- A text that fits on a line. -/
def OneLine (s : Bytes) : Prop := (10 : UInt8) ∉ s ∧ s.getLast? ≠ some 13

instance (s : Bytes) : Decidable (OneLine s) := inferInstanceAs (Decidable (_ ∧ _))

theorem framed_error {s : Bytes} (h : OneLine s) : Framed (45 :: (s ++ crlf)) :=
  ⟨.error s, .error h.1 h.2, Nat.zero_le _⟩

theorem framed_simple {s : Bytes} (h : OneLine s) : Framed (43 :: (s ++ crlf)) :=
  ⟨.simpleString s, .simpleString h.1 h.2, Nat.zero_le _⟩

theorem framed_errReply {msg : String} (h : OneLine (str msg)) : Framed (errReply msg) :=
  framed_error h

theorem framed_okReply : Framed okReply := framed_simple (s := str "OK") (by decide)

theorem framed_nullBulk : Framed nullBulk := ⟨.bulkString [], .nullBulk, Nat.zero_le _⟩

theorem framed_bulkReply (s : Bytes) : Framed (bulkReply s) :=
  ⟨.bulkString s, wire_bulkReply s, Nat.zero_le _⟩

theorem wire_intReply {z : ℤ} (h : -(2 ^ 63) ≤ z ∧ z < 2 ^ 63) : Wire (.integer z) (intReply z) := by
  rw [intReply, intBytes_eq]
  exact .integer (paddedNat_natBytes _) h

theorem framed_intReply {z : ℤ} (h : -(2 ^ 63) ≤ z ∧ z < 2 ^ 63) : Framed (intReply z) :=
  ⟨.integer z, wire_intReply h, Nat.zero_le _⟩

theorem framed_boolReply (b : Bool) : Framed (boolReply b) := by
  apply framed_intReply
  split <;> decide

theorem framed_arrayReply {items : List Bytes} (h : items.length ≤ RespParser.vectorMaxSize) :
    Framed (arrayReply items) := by
  refine ⟨.array (items.map .bulkString), wire_arrayReply items, ?_⟩
  rwa [widest_bulkStrings]

/-- Fields and values alternate. -/
def hashItems (hash : UMap Bytes Bytes) : List Bytes := hash.entries.flatMap fun e => [e.1, e.2]

theorem length_hashItems (hash : UMap Bytes Bytes) : (hashItems hash).length = hash.size * 2 := by
  simp [hashItems, UMap.size, List.length_flatMap]

theorem hashReply_eq (hash : UMap Bytes Bytes) : hashReply hash = arrayReply (hashItems hash) := by
  have hbytes : ∀ l : List (Bytes × Bytes), (l.flatMap fun e => [e.1, e.2]).flatMap bulkReply =
      l.flatMap fun e => bulkReply e.1 ++ bulkReply e.2 := by
    intro l
    induction l with
    | nil => rfl
    | cons e l ih => simp [ih]
  rw [hashReply, arrayReply, length_hashItems, hashItems, hbytes]

/-- Framed replies under their number. -/
theorem framed_execReply {results : List Bytes} (h : ∀ r ∈ results, Framed r)
    (hcount : results.length ≤ RespParser.vectorMaxSize) :
    ∃ elems, elems.length = results.length ∧ Wire (.array elems) (execReply results) ∧
      (RespValue.array elems).widest ≤ RespParser.vectorMaxSize := by
  choose! value hwire hwide using h
  refine ⟨results.map value, List.length_map _, ?_, ?_⟩
  · have harray := @Wire.array (results.map fun r => (value r, r)) (natBytes results.length)
      (by rw [List.length_map]; exact paddedNat_natBytes _) (by simpa using hwire)
    simpa [Function.comp_def, execReply] using harray
  · have hall : RespValue.widestOf (results.map value) ≤ RespParser.vectorMaxSize := by
      induction results with
      | nil => exact Nat.zero_le _
      | cons r results ih =>
        rw [List.map_cons, RespValue.widestOf]
        exact max_le (hwide r List.mem_cons_self) (ih (by rw [List.length_cons] at hcount; omega)
          (fun r hr => hwire r (List.mem_cons_of_mem _ hr))
          fun r hr => hwide r (List.mem_cons_of_mem _ hr))
    rw [RespValue.widest, List.length_map]
    exact max_le hcount hall

/-! ### Handlers -/

/-- No address space holds more elements: a stored element takes a byte at least, and addresses have
57 bits. -/
def capacity : ℕ := 2 ^ 57

theorem framed_count {n : ℕ} (h : n ≤ capacity) : Framed (intReply n) := by
  apply framed_intReply
  unfold capacity at h
  omega

theorem framed_items {items : List Bytes} (h : items.length ≤ capacity) :
    Framed (arrayReply items) := by
  apply framed_arrayReply
  unfold capacity at h
  unfold RespParser.vectorMaxSize
  omega

/-- A framed reply, and a store that grew by `n` elements at most. -/
structure Served (d : Data S) (n : ℕ) (x : Bytes × Data S) : Prop where
  framed : Framed x.1
  grows : Database.elements x.2 ≤ Database.elements d + n

theorem Served.mono {d : Data S} {n m : ℕ} {x : Bytes × Data S} (h : Served d n x) (hnm : n ≤ m) :
    Served d m x := by
  refine ⟨h.framed, ?_⟩
  have := h.grows
  omega

/-- A reply that comes with the store as it was. -/
theorem served_read {d : Data S} {n : ℕ} {reply : Bytes} (h : Framed reply) : Served d n (reply, d) :=
  ⟨h, Nat.le_add_right _ _⟩

theorem served_refused {d : Data S} {n : ℕ} {msgs : List String} {h : Data S → Bytes × Data S}
    (href : Refuses msgs h) (hmsgs : ∀ msg ∈ msgs, OneLine (str msg)) : Served d n (h d) := by
  obtain ⟨msg, hmem, hd⟩ := href
  rw [hd]
  exact served_read (framed_errReply (hmsgs msg hmem))

section Shapes

variable {d : Data S} {args : Args}

theorem served_withKey {arity notBulk : String} {run : Bytes → Data S → Bytes × Data S}
    (hmsgs : ∀ msg ∈ [arity, notBulk], OneLine (str msg))
    (hrun : args.length = 2 → ∀ key, Served d 2 (run key d)) :
    Served d args.length (withKey arity notBulk run args d) := by
  rcases withKey_cases arity notBulk run args with href | ⟨name, key, hargs, h⟩
  · exact served_refused href hmsgs
  · rw [h, hargs]
    exact hrun (by rw [hargs]; rfl) key

theorem served_withTwo {arity notBulk : String} {run : Bytes → Bytes → Data S → Bytes × Data S}
    (hmsgs : ∀ msg ∈ [arity, notBulk], OneLine (str msg))
    (hrun : args.length = 3 → ∀ key arg, Served d 3 (run key arg d)) :
    Served d args.length (withTwo arity notBulk run args d) := by
  rcases withTwo_cases arity notBulk run args with href | ⟨name, key, arg, hargs, h⟩
  · exact served_refused href hmsgs
  · rw [h, hargs]
    exact hrun (by rw [hargs]; rfl) key arg

theorem length_allBulk {vs : List RespValue} {values : List Bytes} (h : allBulk vs = some values) :
    values.length = vs.length := by
  rw [allBulk_eq_some_iff.mp h, List.length_map]

theorem served_withKeyAndRest {arity notBulkKey notBulkRest : String}
    {run : Bytes → List Bytes → Data S → Bytes × Data S}
    (hmsgs : ∀ msg ∈ [arity, notBulkKey, notBulkRest], OneLine (str msg))
    (hrun : ∀ key values, args.length = values.length + 2 →
      Served d (values.length + 2) (run key values d)) :
    Served d args.length (withKeyAndRest arity notBulkKey notBulkRest run args d) := by
  rcases withKeyAndRest_cases arity notBulkKey notBulkRest run args with
    href | ⟨name, key, v, vs, values, hargs, hall, h⟩
  · exact served_refused href hmsgs
  · have hlength : args.length = values.length + 2 := by
      rw [hargs, length_allBulk hall]
      rfl
    rw [h, hlength]
    exact hrun key values hlength

theorem served_withKeys {arity notBulk : String} {read : List Bytes → Data S → Bytes}
    (hmsgs : ∀ msg ∈ [arity, notBulk], OneLine (str msg)) (hread : ∀ keys, Framed (read keys d)) :
    Served d args.length (withKeys arity notBulk read args d) := by
  unfold withKeys
  split
  · split
    · exact served_read (framed_errReply (hmsgs notBulk (by simp)))
    · exact served_read (hread _)
  · exact served_read (framed_errReply (hmsgs arity (by simp)))

theorem served_withRange {accepts : ℕ → Bool} {arity notBulk notInt : String}
    {read : Bytes → ℤ → ℤ → Data S → Bytes}
    (hmsgs : ∀ msg ∈ [arity, notBulk, notInt], OneLine (str msg))
    (hread : ∀ key start stop, Framed (read key start stop d)) :
    Served d args.length (withRange accepts arity notBulk notInt read args d) := by
  unfold withRange
  split
  · split
    · split
      · exact served_read (framed_errReply (hmsgs notBulk (by simp)))
      · split
        · exact served_read (hread _ _ _)
        · exact served_read (framed_errReply (hmsgs notInt (by simp)))
    · exact served_read (framed_errReply (hmsgs arity (by simp)))
  · exact served_read (framed_errReply (hmsgs arity (by simp)))

end Shapes

section Handlers

variable {d : Data S} {args : Args} (now : ℤ)

open Database

theorem elements_keyExists (key : Bytes) (d : Data S) :
    elements (keyExists now key d).2 ≤ elements d := elements_of_purged (purged_keyExists now key d)

theorem elements_type (key : Bytes) (d : Data S) : elements (type now key d).2 ≤ elements d :=
  elements_of_purged (purged_ifLive now _ (fun v => v.type) key d)

theorem served_handleSet : Served d args.length (handleSet args d) := by
  refine served_withTwo (by decide) fun _ key value => ⟨framed_okReply, ?_⟩
  have hwrite : ∀ v : RedisValue S,
      ({ v with type := .string, strVal := value } : RedisValue S).elements ≤ v.elements + 0 :=
    fun v => Nat.le_refl v.elements
  have hset : elements (set key value d) ≤ elements d + 0 + 1 :=
    elements_writeThrough (n := 0) hwrite key d
  have hcount := elements_incrementModCount key (set key value d)
  show elements (incrementModCount key (set key value d)) ≤ elements d + 3
  omega

theorem served_handleGet : Served d args.length (handleGet now args d) := by
  refine served_withKey (by decide) fun _ key => ?_
  have hfound := elements_keyExists now key d
  have htype := elements_type now key (keyExists now key d).2
  have hget : elements (get now key (type now key (keyExists now key d).2).2).2 ≤
      elements (type now key (keyExists now key d).2).2 :=
    elements_of_purged (purged_ifTypedLive now _ _ _ key _)
  simp only
  split
  · exact ⟨framed_nullBulk, by simp only; omega⟩
  · split
    · exact ⟨framed_nullBulk, by simp only; omega⟩
    · exact ⟨framed_bulkReply _, by simp only; omega⟩

theorem served_handleDel : Served d args.length (handleDel now args d) := by
  refine served_withKey (by decide) fun _ key => ⟨framed_boolReply _, ?_⟩
  have hfound := elements_keyExists now key d
  have hcount := elements_incrementModCount key (keyExists now key d).2
  refine (elements_erase_le key _).trans ?_
  split <;> omega

theorem served_handleExists : Served d args.length (handleExists now args d) := by
  refine served_withKey (by decide) fun _ key => ⟨framed_boolReply _, ?_⟩
  exact (elements_keyExists now key d).trans (Nat.le_add_right _ _)

theorem served_handleType : Served d args.length (handleType now args d) := by
  refine served_withKey (by decide) fun _ key => ?_
  have hfound := elements_keyExists now key d
  have htype := elements_type now key (keyExists now key d).2
  have htext : ∀ t, OneLine (typeText t) := by
    intro t
    cases t <;> decide
  simp only
  split
  · exact ⟨framed_simple (by decide), by simp only; omega⟩
  · exact ⟨framed_simple (htext _), by simp only; omega⟩

/-- The pushes: the reply counts the list, which is within the store after the call. -/
theorem served_push {write : RedisValue S → RedisValue S} {values : List Bytes} {key : Bytes}
    (hwrite : ∀ v, (write v).elements ≤ v.elements + values.length)
    (hcap : elements d + (values.length + 2) ≤ capacity) :
    Served d (values.length + 2)
      (intReply (((writeThrough write key d).find? key).getD default).listVal.length,
        incrementModCount key (writeThrough write key d)) := by
  have hgrow := elements_writeThrough hwrite key d
  have hcount := elements_incrementModCount key (writeThrough write key d)
  have hlist : (((writeThrough write key d).find? key).getD default).listVal.length ≤
      elements (writeThrough write key d) := by
    have hentry := elements_of_find?
      (show (writeThrough write key d).find? key = some _ from UMap.find?_set_self d key _)
    rw [writeThrough, UMap.find?_set_self, Option.getD_some]
    unfold RedisValue.elements at hentry
    rw [writeThrough] at hentry
    omega
  refine ⟨framed_count (by omega), ?_⟩
  simp only
  omega

theorem served_handleLpush (hcap : elements d + args.length ≤ capacity) :
    Served d args.length (handleLpush args d) := by
  refine served_withKeyAndRest (by decide) fun key values hlength => ?_
  rw [hlength] at hcap
  refine served_push (fun v => ?_) hcap
  simp only [RedisValue.elements, List.length_append, List.length_reverse]
  omega

theorem served_handleRpush (hcap : elements d + args.length ≤ capacity) :
    Served d args.length (handleRpush args d) := by
  refine served_withKeyAndRest (by decide) fun key values hlength => ?_
  rw [hlength] at hcap
  refine served_push (fun v => ?_) hcap
  simp only [RedisValue.elements, List.length_append]
  omega

theorem served_popReply {key : Bytes} {popped : Bytes × Data S}
    (h : elements popped.2 ≤ elements d) : Served d 2 (popReply now key popped) := by
  have hfound := elements_keyExists now key popped.2
  have hcount := elements_incrementModCount key popped.2
  have hcount' := elements_incrementModCount key (keyExists now key popped.2).2
  simp only [popReply]
  split
  · split
    · exact ⟨framed_nullBulk, by simp only; omega⟩
    · exact ⟨framed_bulkReply _, by simp only; omega⟩
  · exact ⟨framed_bulkReply _, by simp only; omega⟩

theorem served_handleLpop : Served d args.length (handleLpop now args d) := by
  refine served_withKey (by decide) fun _ key => served_popReply now ?_
  apply elements_updateTyped
  intro v
  simp only [RedisValue.elements, List.length_tail]
  omega

theorem served_handleRpop : Served d args.length (handleRpop now args d) := by
  refine served_withKey (by decide) fun _ key => served_popReply now ?_
  apply elements_updateTyped
  intro v
  simp only [RedisValue.elements, List.length_dropLast]
  omega

theorem served_handleLlen (hcap : elements d + args.length ≤ capacity) :
    Served d args.length (handleLlen now args d) := by
  refine served_withKey (by decide) fun _ key => ⟨framed_count ?_, ?_⟩
  · simp only [llen, ifTypedLive]
    split
    · exact Nat.zero_le _
    · rename_i v hv
      have hle := elements_of_find? hv
      unfold RedisValue.elements at hle
      split
      · split
        · exact Nat.zero_le _
        · simp only
          omega
      · exact Nat.zero_le _
  · exact (elements_of_purged (purged_ifTypedLive now _ _ _ key d)).trans (Nat.le_add_right _ _)

theorem served_handleKeys (hcap : elements d + args.length ≤ capacity) :
    Served d args.length (handleKeys args d) := by
  unfold handleKeys
  split
  · exact served_read (framed_errReply (by decide))
  · refine served_read (framed_items ?_)
    have hkeys : (keys d).length = d.size := List.length_map _
    have hsize := size_le_elements d
    omega

theorem served_handleLrange (hcap : elements d + args.length ≤ capacity) :
    Served d args.length (handleLrange args d) := by
  refine served_withRange (by decide) fun key start stop => framed_items ?_
  refine (length_readTyped_le fun v => ?_).trans (show elements d ≤ capacity by omega)
  refine (length_slice_le _ _ _).trans ?_
  unfold RedisValue.elements
  omega

/-- The two walks over the score index. -/
theorem served_zslice {list : RedisValue S → List Bytes}
    (hlist : ∀ v, (list v).length = v.zsetScoreToMember.size)
    (hcap : elements d + args.length ≤ capacity) (key : Bytes) (start stop : ℤ) :
    Framed (arrayReply (readTyped .zset [] (fun v => slice (list v) start stop) key d)) := by
  apply framed_items
  refine (length_readTyped_le fun v => ?_).trans (show elements d ≤ capacity by omega)
  refine (length_slice_le _ _ _).trans ?_
  rw [hlist]
  unfold RedisValue.elements
  omega

theorem served_handleZrange (hcap : elements d + args.length ≤ capacity) :
    Served d args.length (handleZrange args d) :=
  served_withRange (by decide) (served_zslice (fun _ => List.length_map _) hcap)

theorem served_handleZrevrange (hcap : elements d + args.length ≤ capacity) :
    Served d args.length (handleZrevrange args d) :=
  served_withRange (by decide)
    (served_zslice (fun _ => by rw [List.length_reverse]; exact List.length_map _) hcap)

theorem served_handleLindex : Served d args.length (handleLindex now args d) := by
  unfold handleLindex
  split
  · rename_i key index
    split
    · exact served_read (framed_errReply (by decide))
    · split
      · exact served_read (framed_errReply (by decide))
      · simp only
        split
        · exact ⟨framed_nullBulk, (elements_keyExists now _ d).trans (Nat.le_add_right _ _)⟩
        · exact served_read (framed_bulkReply _)
  · exact served_read (framed_errReply (by decide))

theorem served_handleSadd (hcap : elements d + args.length ≤ capacity) :
    Served d args.length (handleSadd args d) := by
  refine served_withKeyAndRest (by decide) fun key members hlength => ?_
  rw [hlength] at hcap
  have hgrow : elements (sadd key members d).2 ≤ elements d + members.length + 1 := by
    apply elements_writeThrough
    intro v
    have := size_insertMany_le v.setVal members
    simp only [RedisValue.elements]
    omega
  have hcount := elements_incrementModCount key (sadd key members d).2
  have hadded : (sadd key members d).1 ≤ elements (sadd key members d).2 := by
    have hentry := elements_of_find?
      (show (sadd key members d).2.find? key = some _ from UMap.find?_set_self d key _)
    simp only [sadd, writeThrough, UMap.find?_set_self, Option.getD_some] at hentry ⊢
    simp only [RedisValue.elements] at hentry
    omega
  refine ⟨framed_count (by omega), ?_⟩
  simp only
  split <;> omega

theorem served_handleSrem (hcap : elements d + args.length ≤ capacity) :
    Served d args.length (handleSrem args d) := by
  refine served_withKeyAndRest (by decide) fun key members hlength => ?_
  have hgrow : elements (srem key members d).2 ≤ elements d := by
    apply elements_updateTyped
    intro v
    have := size_eraseMany_le v.setVal members
    simp only [RedisValue.elements]
    omega
  have hcount := elements_incrementModCount key (srem key members d).2
  have hremoved : (srem key members d).1 ≤ elements d := by
    rcases updateTyped_cases .set 0 _ key d with h | ⟨v, hv, -, h⟩
    · rw [srem, h]
      exact Nat.zero_le _
    · have hle := elements_of_find? hv
      unfold RedisValue.elements at hle
      rw [srem, h]
      simp only
      omega
  refine ⟨framed_count (by omega), ?_⟩
  simp only
  split <;> omega

theorem served_handleSismember : Served d args.length (handleSismember args d) :=
  served_withTwo (by decide) fun _ _ _ => served_read (framed_boolReply _)

/-- The commands that answer the size of a container. -/
theorem served_size {arity notBulk : String} {type : RedisType} {size : RedisValue S → ℕ}
    (hmsgs : ∀ msg ∈ [arity, notBulk], OneLine (str msg)) (hsize : ∀ v, size v ≤ v.elements)
    (hcap : elements d + args.length ≤ capacity) :
    Served d args.length
      (withKey arity notBulk (fun key d => (intReply (readTyped type 0 size key d : ℕ), d)) args d) := by
  refine served_withKey hmsgs fun _ key => served_read (framed_count ?_)
  exact (readTyped_le hsize).trans (by omega)

theorem served_handleScard (hcap : elements d + args.length ≤ capacity) :
    Served d args.length (handleScard args d) :=
  served_size (by decide) (fun v => by unfold RedisValue.elements; omega) hcap

theorem served_handleHlen (hcap : elements d + args.length ≤ capacity) :
    Served d args.length (handleHlen args d) :=
  served_size (by decide) (fun v => by unfold RedisValue.elements; omega) hcap

theorem served_handleZcard (hcap : elements d + args.length ≤ capacity) :
    Served d args.length (handleZcard args d) :=
  served_size (by decide) (fun v => by unfold RedisValue.elements; omega) hcap

/-- The commands that list a container. -/
theorem served_list {arity notBulk : String} {type : RedisType} {list : RedisValue S → List Bytes}
    (hmsgs : ∀ msg ∈ [arity, notBulk], OneLine (str msg))
    (hlist : ∀ v, (list v).length ≤ v.elements) (hcap : elements d + args.length ≤ capacity) :
    Served d args.length
      (withKey arity notBulk (fun key d => (arrayReply (readTyped type [] list key d), d)) args d) := by
  refine served_withKey hmsgs fun _ key => served_read (framed_items ?_)
  exact (length_readTyped_le hlist).trans (by omega)

theorem served_handleSmembers (hcap : elements d + args.length ≤ capacity) :
    Served d args.length (handleSmembers args d) := by
  refine served_list (by decide) (fun v => ?_) hcap
  have hkeys : v.setVal.keys.length = v.setVal.size := List.length_map _
  unfold RedisValue.elements
  omega

theorem served_handleHkeys (hcap : elements d + args.length ≤ capacity) :
    Served d args.length (handleHkeys args d) := by
  refine served_list (by decide) (fun v => ?_) hcap
  have hkeys : v.hashVal.keys.length = v.hashVal.size := List.length_map _
  unfold RedisValue.elements
  omega

theorem served_handleHvals (hcap : elements d + args.length ≤ capacity) :
    Served d args.length (handleHvals args d) := by
  refine served_list (by decide) (fun v => ?_) hcap
  have hvalues : v.hashVal.values.length = v.hashVal.size := List.length_map _
  unfold RedisValue.elements
  omega

theorem served_handleSinter (hcap : elements d + args.length ≤ capacity) :
    Served d args.length (handleSinter args d) :=
  served_withKeys (by decide) fun keys => framed_items ((length_sinter_le keys d).trans (by omega))

theorem served_handleSunion (hcap : elements d + args.length ≤ capacity) :
    Served d args.length (handleSunion args d) :=
  served_withKeys (by decide) fun keys => framed_items ((length_sunion_le keys d).trans (by omega))

theorem served_handleSdiff (hcap : elements d + args.length ≤ capacity) :
    Served d args.length (handleSdiff args d) :=
  served_withKeys (by decide) fun keys => framed_items ((length_sdiff_le keys d).trans (by omega))

theorem served_handleHgetall (hcap : elements d + args.length ≤ capacity) :
    Served d args.length (handleHgetall args d) := by
  refine served_withKey (by decide) fun _ key => served_read ?_
  have hsize : (hgetall key d).size ≤ elements d := by
    simp only [hgetall, readTyped]
    split
    · exact Nat.zero_le _
    · rename_i v hv
      have hle := elements_of_find? hv
      unfold RedisValue.elements at hle
      split
      · omega
      · exact Nat.zero_le _
  rw [hashReply_eq]
  apply framed_arrayReply
  rw [length_hashItems]
  unfold capacity at hcap
  unfold RespParser.vectorMaxSize
  omega

theorem elements_hset (key field value : Bytes) (d : Data S) :
    elements (hset key field value d) ≤ elements d + 2 := by
  show elements (writeThrough _ key d) ≤ elements d + 1 + 1
  apply elements_writeThrough
  intro v
  have hset : (v.hashVal.set field value).size ≤ v.hashVal.size + 1 :=
    UMap.size_setMany_le v.hashVal [(field, value)]
  simp only [RedisValue.elements]
  omega

/-- Each pair of the `HSET` loop enters a field, and the first one the key. -/
theorem elements_hsetLoop (key : Bytes) (vs : List RespValue) (fieldsSet : ℕ) (d : Data S) :
    elements (hsetLoop key vs fieldsSet d).2 ≤ elements d + vs.length ∧
      ∀ n, (hsetLoop key vs fieldsSet d).1 = some n → n ≤ fieldsSet + vs.length := by
  fun_induction hsetLoop key vs fieldsSet d with
  | case1 _ _ rest fieldsSet d field value _ _ ih =>
    have hset := elements_hset key field value d
    rw [List.length_cons, List.length_cons]
    refine ⟨by omega, fun n hn => ?_⟩
    have := ih.2 n hn
    omega
  | case2 => exact ⟨Nat.le_add_right _ _, fun n hn => by cases hn⟩
  | case3 =>
    refine ⟨Nat.le_add_right _ _, fun n hn => ?_⟩
    cases hn
    exact Nat.le_add_right _ _

theorem served_handleHset (hcap : elements d + args.length ≤ capacity) :
    Served d args.length (handleHset args d) := by
  unfold handleHset
  split
  · exact served_read (framed_errReply (by decide))
  · rename_i harity
    split
    · exact served_read (framed_errReply (by decide))
    · rename_i key _
      have hloop := elements_hsetLoop key (args.drop 2) 0 d
      rw [List.length_drop] at hloop
      split
      · rename_i d' hd'
        rw [hd'] at hloop
        exact ⟨framed_errReply (by decide), by simp only at hloop ⊢; omega⟩
      · rename_i fieldsSet d' hd'
        rw [hd'] at hloop
        have hn := hloop.2 fieldsSet rfl
        have hcount := elements_incrementModCount key d'
        refine ⟨framed_count (by omega), ?_⟩
        simp only at hloop ⊢
        split <;> omega

theorem served_handleHget : Served d args.length (handleHget now args d) := by
  refine served_withTwo (by decide) fun _ key field => ?_
  have hfound := elements_keyExists now key d
  have htype := elements_type now key (keyExists now key d).2
  simp only
  split
  · refine ⟨framed_nullBulk, ?_⟩
    simp only
    split <;> omega
  · exact served_read (framed_bulkReply _)

/-- The removals that answer a flag. -/
theorem served_flag {key : Bytes} {n : ℕ} {x : Bool × Data S} (h : elements x.2 ≤ elements d + n) :
    Served d (n + 1) (boolReply x.1, if x.1 then incrementModCount key x.2 else x.2) := by
  have hcount := elements_incrementModCount key x.2
  refine ⟨framed_boolReply _, ?_⟩
  simp only
  split <;> omega

theorem served_handleHdel : Served d args.length (handleHdel args d) := by
  refine served_withKeyAndRest (by decide) fun key fields _ => ?_
  refine (served_flag (n := 0) (elements_updateTyped (fun v => ?_) key d)).mono (by omega)
  have := size_eraseMany_le v.hashVal fields
  simp only [RedisValue.elements]
  omega

theorem served_handleZrem : Served d args.length (handleZrem args d) := by
  refine served_withKeyAndRest (by decide) fun key members _ => ?_
  exact (served_flag (n := 0) (elements_updateTyped
    (fun v => elements_foldl_zremOne members (false, v)) key d)).mono (by omega)

theorem length_zaddPairs {vs : List RespValue} {ps : List (S × Bytes)}
    (h : zaddPairs vs = .ok ps) : 2 * ps.length ≤ vs.length := by
  fun_induction zaddPairs (S := S) vs generalizing ps with
  | case1 => cases h
  | case2 _ _ rest _ _ _ _ _ _ ih =>
    obtain ⟨qs, hqs, rfl⟩ := map_eq_ok h
    have := ih hqs
    rw [List.length_cons, List.length_cons, List.length_cons]
    omega
  | case3 => cases h
  | case4 =>
    cases h
    exact Nat.zero_le _

theorem zaddPairs_error {vs : List RespValue} {msg : String}
    (h : (zaddPairs vs : Except String (List (S × Bytes))) = .error msg) : OneLine (str msg) := by
  fun_induction zaddPairs (S := S) vs with
  | case1 =>
    cases h
    decide
  | case2 _ _ rest _ _ _ _ _ _ ih =>
    cases hrest : (zaddPairs rest : Except String (List (S × Bytes))) with
    | ok qs => rw [hrest] at h; cases h
    | error msg' =>
      rw [hrest] at h
      cases h
      exact ih hrest
  | case3 =>
    cases h
    decide
  | case4 => cases h

theorem served_handleZadd : Served d args.length (handleZadd args d) := by
  unfold handleZadd
  split
  · exact served_read (framed_errReply (by decide))
  · rename_i harity
    split
    · exact served_read (framed_errReply (by decide))
    · rename_i key _
      split
      · rename_i msg hmsg
        exact served_read (framed_errReply (zaddPairs_error hmsg))
      · rename_i members hmembers
        have hlength := length_zaddPairs hmembers
        rw [List.length_drop] at hlength
        have hgrow : elements (zadd key members d).2 ≤ elements d + 2 * members.length + 1 := by
          apply elements_writeThrough
          intro v
          exact elements_foldl_zaddOne members { v with type := .zset }
        exact (served_flag (n := 2 * members.length + 1) hgrow).mono (by omega)

theorem served_handleZscore : Served d args.length (handleZscore now args d) := by
  refine served_withTwo (by decide) fun _ key member => ?_
  have hfound := elements_keyExists now key d
  simp only
  split
  · split
    · exact ⟨framed_nullBulk, by simp only; omega⟩
    · exact ⟨framed_bulkReply _, by simp only; omega⟩
  · exact served_read (framed_bulkReply _)

theorem served_handleZrank (hcap : elements d + args.length ≤ capacity) :
    Served d args.length (handleZrank args d) := by
  refine served_withTwo (by decide) fun _ key member => ?_
  have hrank := zrank_le key member d
  simp only
  split
  · exact served_read framed_nullBulk
  · refine served_read (framed_intReply ?_)
    unfold capacity at hcap
    omega

end Handlers

end MinimalRedis
