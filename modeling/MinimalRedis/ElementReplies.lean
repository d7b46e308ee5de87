import MinimalRedis.ListQueue
import MinimalRedis.Replies

/-!
# Replies about one element

The methods of the store answer "nothing there" with a value that can also be stored: the empty
string, or the score zero.  The handlers tell the two apart afterwards, by the key alone.

* `pops_report_emptiness_iff` — a pop answers and changes what it should exactly when the key is
  absent or holds a list with an element;
* `reads_back_iff` — `HGET` and `LINDEX` read back every value but the empty string;
* `zscore_membership_iff` — `ZSCORE` sees that a member is missing exactly when the whole set is.
-/

namespace MinimalRedis

open Lib

variable {S : Type} [Score S]

/-- The key is absent, or its value has not expired. -/
def Unexpired (now : ℤ) (key : Bytes) (d : Data S) : Prop :=
  ∀ v, d.find? key = some v → v.isExpired now = false

theorem keyExists_of_none {now : ℤ} {key : Bytes} {d : Data S} (h : d.find? key = none) :
    Database.keyExists now key d = (false, d) := by
  rw [Database.keyExists, Database.ifLive, h]

theorem keyExists_of_live {now : ℤ} {key : Bytes} {d : Data S} {v : RedisValue S}
    (h : d.find? key = some v) (hlive : v.isExpired now = false) :
    Database.keyExists now key d = (true, d) := by
  rw [Database.keyExists, Database.ifLive, h]
  simp only [hlive, Bool.false_eq_true, if_false]

/-! ### Pops -/

/-- A pop at one end: `first` is the element there, `rest` the list without it. -/
structure PopReports (first : List Bytes → Option Bytes) (rest : List Bytes → List Bytes)
    (key : Bytes) (d : Data S) (x : Bytes × Data S) : Prop where
  pops : ∀ v e, d.find? key = some v → v.type = .list → first v.listVal = some e →
    x.1 = bulkReply e ∧
      x.2.find? key = some { v with listVal := rest v.listVal, modCount := v.modCount + 1 } ∧
      ∀ k, k ≠ key → x.2.find? k = d.find? k
  reports : (∀ v, d.find? key = some v → v.type = .list → v.listVal = []) → x = (nullBulk, d)

/-- The key is absent, or holds a list with an element. -/
def HasElements (key : Bytes) (d : Data S) : Prop :=
  ∀ v, d.find? key = some v → v.type = .list ∧ v.listVal ≠ []

section Pops

variable {now : ℤ} {key : Bytes} {d : Data S} {first : List Bytes → Bytes}
  {rest : List Bytes → List Bytes}

/-- The common form of `lpop` and `rpop`. -/
def popAt (first : List Bytes → Bytes) (rest : List Bytes → List Bytes) (key : Bytes)
    (d : Data S) : Bytes × Data S :=
  Database.updateTyped .list []
    (fun v => (first v.listVal, { v with listVal := rest v.listVal })) key d

theorem popReply_of_none (h : d.find? key = none) :
    popReply now key (popAt first rest key d) = (nullBulk, d) := by
  rw [popAt, Database.updateTyped, h, popReply, if_pos rfl, keyExists_of_none h]
  rfl

theorem popReply_of_other {v : RedisValue S} (h : d.find? key = some v)
    (hlive : v.isExpired now = false) (htype : v.type ≠ .list) :
    popReply now key (popAt first rest key d) =
      (bulkReply [], Database.incrementModCount key d) := by
  rw [popAt, Database.updateTyped, h]
  simp only [htype, if_false]
  rw [popReply, if_pos rfl, keyExists_of_live h hlive]
  rfl

theorem popReply_of_list {v : RedisValue S} (h : d.find? key = some v)
    (hlive : v.isExpired now = false) (htype : v.type = .list) :
    popReply now key (popAt first rest key d) = (bulkReply (first v.listVal),
      d.set key { v with listVal := rest v.listVal, modCount := v.modCount + 1 }) := by
  have hfind := UMap.find?_set_self d key { v with listVal := rest v.listVal }
  have hbump : Database.incrementModCount key (d.set key { v with listVal := rest v.listVal }) =
      d.set key { v with listVal := rest v.listVal, modCount := v.modCount + 1 } := by
    rw [Database.incrementModCount, hfind]
    exact UMap.set_set _ _ _ _
  rw [popAt, Database.updateTyped, h]
  simp only [if_pos htype]
  rw [popReply]
  split
  · -- an empty element: the key is there, with the expiry it had
    simp only [keyExists_of_live hfind ((RedisValue.isExpired_congr rfl now).trans hlive),
      Bool.not_true, Bool.false_eq_true, if_false, hbump]
  · rw [hbump]

theorem popReports_iff (hlive : Unexpired now key d) {first? : List Bytes → Option Bytes}
    (hfirst : ∀ l, first l = (first? l).getD []) (hnil : ∀ l, first? l = none ↔ l = []) :
    PopReports first? rest key d (popReply now key (popAt first rest key d)) ↔
      HasElements key d := by
  cases hv : d.find? key with
  | none =>
    rw [popReply_of_none hv]
    refine iff_of_true ⟨?_, fun _ => rfl⟩ ?_
    · intro v e h
      rw [hv] at h
      cases h
    · intro v h
      rw [hv] at h
      cases h
  | some v =>
    have hone : ∀ w, d.find? key = some w → w = v := fun w hw => Option.some.inj (hw.symm.trans hv)
    by_cases htype : v.type = .list
    · rw [popReply_of_list hv (hlive v hv) htype, hfirst]
      cases hf : first? v.listVal with
      | none =>
        -- the list has no element left
        have hempty := (hnil _).mp hf
        refine iff_of_false (fun h => ?_) fun h => (h v hv).2 hempty
        have hnull := h.reports fun w hw _ => by rw [hone w hw, hempty]
        exact bulkReply_ne_nullBulk _ (congrArg Prod.fst hnull)
      | some e =>
        have hne : v.listVal ≠ [] := by
          rw [ne_eq, ← hnil, hf]
          exact Option.some_ne_none e
        refine iff_of_true ⟨?_, fun h => absurd (h v hv htype) hne⟩ ?_
        · intro w e' hw _ he'
          obtain rfl := hone w hw
          obtain rfl := Option.some.inj (hf.symm.trans he')
          exact ⟨rfl, UMap.find?_set_self _ _ _, fun k hk => UMap.find?_set_ne _ _ hk⟩
        · intro w hw
          rw [hone w hw]
          exact ⟨htype, hne⟩
    · rw [popReply_of_other hv (hlive v hv) htype]
      refine iff_of_false (fun h => ?_) fun h => htype (h v hv).1
      have hnull := h.reports fun w hw hlist => absurd (hone w hw ▸ hlist) htype
      exact bulkReply_ne_nullBulk _ (congrArg Prod.fst hnull)

end Pops

/-- On an unexpired or absent key, `LPOP` and `RPOP` do what a pop should exactly when the key is
absent or holds a list with an element, whatever the bytes of that element. -/
theorem pops_report_emptiness_iff (now : ℤ) (name : RespValue) (key : Bytes) (d : Data S)
    (hlive : Unexpired now key d) :
    (PopReports List.head? List.tail key d (handleLpop now [name, .bulkString key] d) ↔
      HasElements key d) ∧
    (PopReports List.getLast? List.dropLast key d (handleRpop now [name, .bulkString key] d) ↔
      HasElements key d) := by
  refine ⟨?_, ?_⟩
  · exact @popReports_iff _ _ now key d (fun l => l.headD []) List.tail hlive List.head?
      (fun l => by cases l <;> rfl) fun l => List.head?_eq_none_iff
  · exact @popReports_iff _ _ now key d (fun l => l.getLastD []) List.dropLast hlive List.getLast?
      (fun l => List.getLastD_eq_getLast?) fun l => List.getLast?_eq_none_iff

/-- The key `k`, as an argument. -/
def keyArg : RespValue := .bulkString (str "k")

/-- After `RPUSH k ""`, the empty element is popped and replied. -/
theorem pops_empty_element :
    let d : Data NatScore := (handleRpush [keyArg, keyArg, .bulkString []] ∅).2
    HasElements (str "k") d ∧
      PopReports List.head? List.tail (str "k") d (handleLpop 0 [keyArg, keyArg] d) := by
  intro d
  have hone : ∀ v, d.find? (str "k") = some v →
      v = { type := .list, listVal := [[]], modCount := 1 } := fun v hv =>
    Option.some.inj (hv.symm.trans (show d.find? (str "k") = some _ by decide))
  have hlive : Unexpired 0 (str "k") d := fun v hv => by rw [hone v hv]; rfl
  have helems : HasElements (str "k") d := fun v hv => by rw [hone v hv]; decide
  exact ⟨helems, (pops_report_emptiness_iff 0 keyArg (str "k") d hlive).1.mpr helems⟩

/-- After `RPUSH k a` and `LPOP k` the list is empty: the next `LPOP` replies an empty string and
counts a modification. -/
theorem lpop_of_drained_list :
    let d : Data NatScore :=
      (handleLpop 0 [keyArg, keyArg] (handleRpush [keyArg, keyArg, .bulkString (str "a")] ∅).2).2
    (handleLpop 0 [keyArg, keyArg] d).1 = str "$0\r\n\r\n" ∧
      Database.getModCount (str "k") d = 2 ∧
      Database.getModCount (str "k") (handleLpop 0 [keyArg, keyArg] d).2 = 3 ∧
      ¬ PopReports List.head? List.tail (str "k") d (handleLpop 0 [keyArg, keyArg] d) := by
  intro d
  refine ⟨by decide, by decide, by decide, fun h => ?_⟩
  have hone : d.find? (str "k") = some { type := .list, modCount := 2 } := by decide
  have hnull := h.reports fun v hv _ => by rw [← Option.some.inj (hone.symm.trans hv)]
  exact absurd (congrArg Prod.fst hnull) (by decide)

/-! ### Fields and elements -/

/-- The reply for what was found. -/
def elementReply : Option Bytes → Bytes
  | some s => bulkReply s
  | none => nullBulk

/-- The value the hash at `key` has under `field`. -/
def hashValue (key field : Bytes) (d : Data S) : Option Bytes :=
  Database.readTyped .hash none (fun v => v.hashVal.find? field) key d

/-- The list at `key`, empty when there is none. -/
def listAt (key : Bytes) (d : Data S) : List Bytes :=
  Database.readTyped .list [] (fun v => v.listVal) key d

/-- The value in the entry's hash; none for a missing key, another type or a missing field. -/
theorem hashValue_eq_some_iff {key field value : Bytes} {d : Data S} :
    hashValue key field d = some value ↔
      ∃ v, d.find? key = some v ∧ v.type = .hash ∧ v.hashVal.find? field = some value :=
  Database.readTyped_eq_iff (Option.some_ne_none value)

/-- The entry's list; none for a missing key or another type. -/
theorem listAt_cases (key : Bytes) (d : Data S) :
    (∃ v, d.find? key = some v ∧ v.type = .list ∧ listAt key d = v.listVal) ∨
      ((∀ v, d.find? key = some v → v.type ≠ .list) ∧ listAt key d = []) :=
  Database.readTyped_cases .list [] (fun v => v.listVal) key d

/-- What stands at position `i`, if that is inside. -/
def element? {α : Type} (i : ℤ) (l : List α) : Option α := if i < 0 then none else l[i.toNat]?

theorem nullBulk_eq_elementReply_iff {x : Option Bytes} : nullBulk = elementReply x ↔ x = none := by
  cases x with
  | none => exact iff_of_true rfl rfl
  | some s => exact iff_of_false (bulkReply_ne_nullBulk s).symm (Option.some_ne_none s)

theorem bulkReply_eq_elementReply_iff {s : Bytes} {x : Option Bytes} :
    bulkReply s = elementReply x ↔ x = some s := by
  cases x with
  | none => exact iff_of_false (bulkReply_ne_nullBulk s) (Option.some_ne_none s).symm
  | some t =>
    constructor
    · intro h
      have happend : bulkReply s ++ [] = bulkReply t ++ [] := by
        rw [List.append_nil, List.append_nil]
        exact h
      rw [(bulkReply_append_inj happend).1]
    · intro h
      rw [Option.some.inj h]
      rfl

/-- A reply that takes the empty string for "not found". -/
theorem inband_reply_iff {x y : Option Bytes} :
    (if x.getD [] = [] then nullBulk else bulkReply (x.getD [])) = elementReply y ↔
      x.filter (· ≠ []) = y := by
  cases x with
  | none => exact nullBulk_eq_elementReply_iff.trans eq_comm
  | some s =>
    by_cases hs : s = []
    · subst hs
      exact nullBulk_eq_elementReply_iff.trans eq_comm
    · rw [Option.getD_some, if_neg hs, bulkReply_eq_elementReply_iff, Option.filter_some,
        if_pos (decide_eq_true hs)]
      exact eq_comm

theorem filter_ne_nil_eq_self_iff {x : Option Bytes} : x.filter (· ≠ []) = x ↔ x ≠ some [] := by
  cases x with
  | none => simp
  | some s => by_cases hs : s = [] <;> simp [hs]

/-- `HGET` replies the value of the field, and the one that stands in the reply of `HGETALL`. -/
structure HgetReads (now : ℤ) (name : RespValue) (key field : Bytes) (d : Data S) : Prop where
  reads : (handleHget now [name, .bulkString key, .bulkString field] d).1 =
    elementReply (hashValue key field d)
  agrees : ∃ hash, (handleHgetall [name, .bulkString key] d).1 = hashReply hash ∧
    (handleHget now [name, .bulkString key, .bulkString field] d).1 =
      elementReply (hash.find? field)

theorem fst_handleHget (now : ℤ) (name : RespValue) (key field : Bytes) (d : Data S) :
    (handleHget now [name, .bulkString key, .bulkString field] d).1 =
      if (hashValue key field d).getD [] = [] then nullBulk
      else bulkReply ((hashValue key field d).getD []) := by
  have hvalue : Database.hget key field d = (hashValue key field d).getD [] := by
    rw [hashValue, Database.apply_readTyped fun value : Option Bytes => value.getD [],
      Option.getD_none, Database.hget]
  show (if Database.hget key field d = [] then _ else _ : Bytes × Data S).1 = _
  rw [hvalue]
  split <;> rfl

theorem find?_hgetall (key field : Bytes) (d : Data S) :
    (Database.hgetall key d).find? field = hashValue key field d :=
  Database.apply_readTyped fun hash : UMap Bytes Bytes => hash.find? field

theorem hgetReads_iff (now : ℤ) (name : RespValue) (key field : Bytes) (d : Data S) :
    HgetReads now name key field d ↔ hashValue key field d ≠ some [] := by
  have hreads : (handleHget now [name, .bulkString key, .bulkString field] d).1 =
      elementReply (hashValue key field d) ↔ hashValue key field d ≠ some [] := by
    rw [fst_handleHget, inband_reply_iff, filter_ne_nil_eq_self_iff]
  constructor
  · intro h
    exact hreads.mp h.reads
  · intro h
    refine ⟨hreads.mpr h, Database.hgetall key d, rfl, ?_⟩
    rw [find?_hgetall]
    exact hreads.mpr h

/-! An index goes through a 32-bit `int`, and so does the length where `LRANGE` clamps its bounds. -/

/-- The position an index stands for, as the code computes it. -/
def intPosition (n : ℕ) (index : ℤ) : ℤ := if index < 0 then wrap32 (n + index) else index

/-- `LINDEX` replies the element at the index, and the one that `LRANGE` lists there. -/
structure LindexReads (now : ℤ) (name : RespValue) (key text : Bytes) (index : ℤ) (d : Data S) :
    Prop where
  reads : (handleLindex now [name, .bulkString key, .bulkString text] d).1 =
    elementReply (element? (position (listAt key d).length index) (listAt key d))
  agrees : ∃ items, (handleLrange [name, .bulkString key, .bulkString text, .bulkString text] d).1 =
      arrayReply items ∧ items.length ≤ 1 ∧
    (handleLindex now [name, .bulkString key, .bulkString text] d).1 = elementReply items.head?

/-- The element at the index is not empty, and the `int` position, inside the `int` length, holds
it too. -/
def Indexable (l : List Bytes) (index : ℤ) : Prop :=
  ∀ x, element? (position l.length index) l = some x → x ≠ [] ∧
    intPosition l.length index < wrap32 l.length ∧
    element? (intPosition l.length index) l = some x

theorem elementAt_eq_getD (l : List Bytes) (index : ℤ) :
    Database.elementAt l index = (element? (intPosition l.length index) l).getD [] := by
  rw [Database.elementAt, element?]
  show (if 0 ≤ intPosition l.length index ∧ intPosition l.length index < l.length then
    l.getD (intPosition l.length index).toNat [] else []) = _
  generalize intPosition l.length index = p
  by_cases hneg : p < 0
  · rw [if_neg (by omega), if_pos hneg]
    rfl
  · rw [if_neg hneg, ← List.getD_eq_getElem?_getD]
    split
    · rfl
    · rw [List.getD_eq_getElem?_getD, List.getElem?_eq_none (by omega)]
      rfl

theorem lindex_eq_elementAt (key : Bytes) (index : ℤ) (d : Data S) :
    Database.lindex key index d = Database.elementAt (listAt key d) index := by
  have hnil : Database.elementAt [] index = [] := by
    rw [Database.elementAt]
    simp only [List.getD_nil, ite_self]
  rw [listAt, Database.apply_readTyped fun l => Database.elementAt l index, hnil, Database.lindex]

theorem slice_self (l : List Bytes) (index : ℤ) :
    Database.slice l index index =
      if 0 ≤ intPosition l.length index ∧ intPosition l.length index < wrap32 l.length then
        (l.drop (intPosition l.length index).toNat).take 1 else [] := by
  rw [Database.slice]
  show (if max 0 (intPosition l.length index) ≤
      min (wrap32 l.length - 1) (intPosition l.length index) then
    (l.drop (max 0 (intPosition l.length index)).toNat).take
      (min (wrap32 l.length - 1) (intPosition l.length index) -
        max 0 (intPosition l.length index) + 1).toNat else []) = _
  generalize intPosition l.length index = p
  generalize wrap32 l.length = n
  by_cases hin : 0 ≤ p ∧ p < n
  · have hstop : min (n - 1) p = p := min_eq_right (by omega)
    rw [if_pos (by omega), if_pos hin, hstop, max_eq_right hin.1, sub_self]
    rfl
  · rw [if_neg (by omega), if_neg hin]

theorem lrange_eq_slice (key : Bytes) (start stop : ℤ) (d : Data S) :
    Database.lrange key start stop d = Database.slice (listAt key d) start stop := by
  have hnil : Database.slice ([] : List Bytes) start stop = [] := by
    rw [Database.slice]
    simp only [List.drop_nil, List.take_nil, ite_self]
  rw [listAt, Database.apply_readTyped fun l => Database.slice l start stop, hnil, Database.lrange]

section Index

variable {now : ℤ} {name : RespValue} {key text : Bytes} {index : Int32}
  (hindex : stoi text = some index.toInt) (d : Data S)

include hindex

theorem fst_handleLindex :
    (handleLindex now [name, .bulkString key, .bulkString text] d).1 =
      if (element? (intPosition (listAt key d).length index.toInt) (listAt key d)).getD [] = []
      then nullBulk
      else bulkReply ((element? (intPosition (listAt key d).length index.toInt)
        (listAt key d)).getD []) := by
  rw [handleLindex]
  simp only [RespValue.bulk?, RespValue.strVal, hindex]
  rw [lindex_eq_elementAt, elementAt_eq_getD]
  split <;> rfl

theorem fst_handleLrange :
    (handleLrange [name, .bulkString key, .bulkString text, .bulkString text] d).1 =
      arrayReply (Database.slice (listAt key d) index.toInt index.toInt) := by
  rw [handleLrange, withRange]
  simp only [RespValue.bulk?, RespValue.strVal, hindex, lrange_eq_slice]
  rfl

omit hindex in
/-- An index that stands for no position keeps that through the `int` arithmetic. -/
theorem intPosition_of_outside {l : List Bytes}
    (h : element? (position l.length index.toInt) l = none) :
    intPosition l.length index.toInt = position l.length index.toInt := by
  have hlow := index.le_toInt
  rw [intPosition, position]
  split
  · rename_i hneg
    rw [position, if_pos hneg, element?] at h
    split at h
    · exact wrap32_of_fits (by omega) (by omega)
    · rw [List.getElem?_eq_none_iff] at h
      omega
  · rfl

theorem lindexReads_iff :
    LindexReads now name key text index.toInt d ↔ Indexable (listAt key d) index.toInt := by
  have hlindex := @fst_handleLindex _ _ now name key text index hindex d
  have hlrange := @fst_handleLrange _ _ name key text index hindex d
  constructor
  · intro h x hx
    have hreads := h.reads
    rw [hlindex, inband_reply_iff, hx, Option.filter_eq_some_iff] at hreads
    obtain ⟨items, hitems, -, hagrees⟩ := h.agrees
    rw [hlindex, inband_reply_iff, Option.filter_eq_some_iff.mpr hreads] at hagrees
    rw [hlrange] at hitems
    rw [← arrayReply_injective hitems, slice_self] at hagrees
    split at hagrees
    · rename_i hin
      exact ⟨of_decide_eq_true hreads.2, hin.2, hreads.1⟩
    · cases hagrees
  · intro h
    have hfound : (element? (intPosition (listAt key d).length index.toInt) (listAt key d)).filter
        (· ≠ []) = element? (position (listAt key d).length index.toInt) (listAt key d) := by
      cases hx : element? (position (listAt key d).length index.toInt) (listAt key d) with
      | none => rw [intPosition_of_outside hx, hx, Option.filter_none]
      | some x =>
        obtain ⟨hne, -, hx'⟩ := h x hx
        rw [hx', Option.filter_some, if_pos (decide_eq_true hne)]
    refine ⟨?_, _, hlrange, ?_, ?_⟩
    · rw [hlindex, inband_reply_iff, hfound]
    · rw [slice_self]
      split
      · exact List.length_take_le _ _
      · exact Nat.zero_le _
    · rw [hlindex, inband_reply_iff, hfound, slice_self]
      cases hx : element? (position (listAt key d).length index.toInt) (listAt key d) with
      | none =>
        -- the range is empty as well
        have hout := hx
        rw [← intPosition_of_outside hx, element?] at hout
        split
        · rename_i hin
          rw [if_neg (by omega), List.getElem?_eq_none_iff] at hout
          rw [List.drop_eq_nil_of_le hout]
          rfl
        · rfl
      | some x =>
        obtain ⟨-, hlt, hx'⟩ := h x hx
        rw [element?] at hx'
        split at hx'
        · cases hx'
        · rename_i hnonneg
          rw [if_pos ⟨by omega, hlt⟩, List.head?_take, if_neg (by decide), List.head?_drop, hx']

end Index

/-- Below `2 ^ 31` elements the `int` arithmetic is exact. -/
theorem indexable_of_short {l : List Bytes} (hl : l.length < 2 ^ 31) (index : Int32) :
    Indexable l index.toInt ↔ element? (position l.length index.toInt) l ≠ some [] := by
  have hpos : intPosition l.length index.toInt = position l.length index.toInt :=
    bound_eq_position hl index
  rw [Indexable, hpos, wrap32_of_fits (by omega) (by omega)]
  constructor
  · intro h hx
    exact (h [] hx).1 rfl
  · intro h x hx
    refine ⟨?_, ?_, hx⟩
    · rintro rfl
      exact h hx
    · rw [element?] at hx
      split at hx
      · cases hx
      · have hlt := (List.getElem?_eq_some_iff.mp hx).1
        omega

/-- `HGET` reads back what the hash holds, and agrees with `HGETALL`, exactly for values that are not
empty; so does `LINDEX` with the list and `LRANGE`, where a list of `2 ^ 31` elements or more must also
have kept the element through the `int` arithmetic. -/
theorem reads_back_iff (now : ℤ) (name : RespValue) (key field text : Bytes) (index : Int32)
    (hindex : stoi text = some index.toInt) (d : Data S) :
    (HgetReads now name key field d ↔ hashValue key field d ≠ some []) ∧
    (LindexReads now name key text index.toInt d ↔ Indexable (listAt key d) index.toInt) ∧
    ((listAt key d).length < 2 ^ 31 → (Indexable (listAt key d) index.toInt ↔
      element? (position (listAt key d).length index.toInt) (listAt key d) ≠ some [])) :=
  ⟨hgetReads_iff now name key field d, lindexReads_iff hindex d,
    fun hl => indexable_of_short hl index⟩

/-- A field and a last element that are not empty. -/
theorem reads_back_nonempty :
    let d : Data NatScore := (handleHset [keyArg, keyArg, keyArg, .bulkString (str "v")] ∅).2
    let d' : Data NatScore := (handleRpush [keyArg, keyArg, .bulkString (str "a")] ∅).2
    HgetReads 0 keyArg (str "k") (str "k") d ∧
      LindexReads 0 keyArg (str "k") (str "-1") (-1) d' := by
  intro d d'
  have hindex : stoi (str "-1") = some ((-1 : Int32).toInt) := rfl
  have hlist : listAt (str "k") d' = [str "a"] := by decide
  have hread := reads_back_iff 0 keyArg (str "k") (str "k") (str "-1") (-1) hindex d
  have hread' := reads_back_iff 0 keyArg (str "k") (str "k") (str "-1") (-1) hindex d'
  exact ⟨hread.1.mpr (by decide),
    hread'.2.1.mpr ((hread'.2.2 (by rw [hlist]; decide)).mpr (by rw [hlist]; decide))⟩

/-- After `HSET k k ""` the field is there, and `HGET` does not find it; after `RPUSH k ""` the element
is there, and `LINDEX` does not find it. -/
theorem empty_value_reads_null :
    let d : Data NatScore := (handleHset [keyArg, keyArg, keyArg, .bulkString []] ∅).2
    let d' : Data NatScore := (handleRpush [keyArg, keyArg, .bulkString []] ∅).2
    (handleHget 0 [keyArg, keyArg, keyArg] d).1 = nullBulk ∧
      (handleHgetall [keyArg, keyArg] d).1 = str "*2\r\n$1\r\nk\r\n$0\r\n\r\n" ∧
      (handleLindex 0 [keyArg, keyArg, .bulkString (str "0")] d').1 = nullBulk ∧
      (handleLrange [keyArg, keyArg, .bulkString (str "0"), .bulkString (str "0")] d').1 =
        str "*1\r\n$0\r\n\r\n" ∧
      ¬ HgetReads 0 keyArg (str "k") (str "k") d ∧
      ¬ LindexReads 0 keyArg (str "k") (str "0") 0 d' := by
  intro d d'
  refine ⟨by decide, by decide, by decide, by decide, fun h => ?_, fun h => ?_⟩
  · exact absurd h.reads (by decide)
  · exact absurd h.reads (by decide)

/-! ### Members and scores -/

/-- The key holds a sorted set with the member. -/
def IsMember (key member : Bytes) (d : Data S) : Prop :=
  ∃ v, d.find? key = some v ∧ v.type = .zset ∧ (v.zsetMemberToScore.find? member).isSome = true

theorem zrank_neg_iff (key member : Bytes) (d : Data S) :
    Database.zrank key member d < 0 ↔ ¬ IsMember key member d := by
  rw [Database.zrank, Database.readTyped, IsMember]
  cases hv : d.find? key with
  | none => simp
  | some v =>
    by_cases htype : v.type = .zset
    · cases hm : v.zsetMemberToScore.find? member with
      | none => simp [htype, hm]
      | some score =>
        have hnonneg := Database.zrankLoop_nonneg score member v.zsetScoreToMember.entries
        simp only [htype, if_true, hm]
        refine iff_of_false (by omega) fun h => h ⟨v, rfl, htype, ?_⟩
        rw [hm]
        rfl
    · simp [htype]

theorem zrank_null_iff (name : RespValue) (key member : Bytes) (d : Data S) :
    (handleZrank [name, .bulkString key, .bulkString member] d).1 = nullBulk ↔
      ¬ IsMember key member d := by
  rw [← zrank_neg_iff]
  show (if Database.zrank key member d < 0 then _ else _ : Bytes × Data S).1 = nullBulk ↔ _
  split
  · exact iff_of_true rfl ‹_›
  · exact iff_of_false (intReply_ne_nullBulk _) ‹_›

/-- A key without expired value: the null reply is given for the score zero and no member at all. -/
theorem zscore_null_iff {now : ℤ} (name : RespValue) {key : Bytes} (member : Bytes) {d : Data S}
    (hlive : Unexpired now key d) :
    (handleZscore now [name, .bulkString key, .bulkString member] d).1 = nullBulk ↔
      Database.zscore key member d = 0 ∧ Database.zcard key d = 0 := by
  show (if Database.zscore key member d = 0 then _ else _ : Bytes × Data S).1 = nullBulk ↔ _
  by_cases hscore : Database.zscore key member d = 0
  · rw [if_pos hscore]
    cases hv : d.find? key with
    | none =>
      have hcard : Database.zcard key d = 0 := by rw [Database.zcard, Database.readTyped, hv]
      rw [keyExists_of_none hv]
      exact iff_of_true rfl ⟨hscore, hcard⟩
    | some v =>
      rw [keyExists_of_live hv (hlive v hv)]
      by_cases hcard : Database.zcard key d = 0
      · simp [hcard, hscore]
      · simp only [Bool.not_true, Bool.false_or, beq_iff_eq, hcard, if_false]
        exact iff_of_false (bulkReply_ne_nullBulk _) fun h => h.2
  · rw [if_neg hscore]
    exact iff_of_false (bulkReply_ne_nullBulk _) fun h => hscore h.1

theorem zcard_eq_zero_iff (key : Bytes) (d : Data S) :
    Database.zcard key d = 0 ↔ ∀ member, ¬ IsMember key member d := by
  rw [Database.zcard, Database.readTyped]
  constructor
  · intro hcard member h
    obtain ⟨v, hv, htype, hm⟩ := h
    simp only [hv, htype, if_true, UMap.size_eq_zero_iff] at hcard
    rw [hcard] at hm
    cases hm
  · intro h
    cases hv : d.find? key with
    | none => rfl
    | some v =>
      by_cases htype : v.type = .zset
      · simp only [htype, if_true, UMap.size]
        rw [List.length_eq_zero_iff, List.eq_nil_iff_forall_not_mem]
        intro e he
        exact h e.1 ⟨v, hv, htype, by rw [UMap.mem_entries_iff.mp he]; rfl⟩
      · simp [htype]

theorem zscore_eq_zero_of_not_isMember {key member : Bytes} {d : Data S}
    (h : ¬ IsMember key member d) : Database.zscore key member d = 0 := by
  rw [Database.zscore, Database.readTyped]
  cases hv : d.find? key with
  | none => rfl
  | some v =>
    by_cases htype : v.type = .zset
    · cases hm : v.zsetMemberToScore.find? member with
      | none => simp [htype, hm]
      | some score => exact absurd ⟨v, hv, htype, by rw [hm]; rfl⟩ h
    · simp [htype]

/-- On an unexpired or absent key `ZRANK` answers null exactly for what is no member.  `ZSCORE` does
so exactly when the member is there or the key holds no member at all. -/
theorem zscore_membership_iff (now : ℤ) (name : RespValue) (key member : Bytes) (d : Data S)
    (hlive : Unexpired now key d) :
    (((handleZscore now [name, .bulkString key, .bulkString member] d).1 = nullBulk ↔
        ¬ IsMember key member d) ↔
      IsMember key member d ∨ ∀ m, ¬ IsMember key m d) ∧
    ((handleZrank [name, .bulkString key, .bulkString member] d).1 = nullBulk ↔
      ¬ IsMember key member d) := by
  refine ⟨?_, zrank_null_iff name key member d⟩
  rw [zscore_null_iff name member hlive, ← zcard_eq_zero_iff]
  by_cases hm : IsMember key member d
  · have hcard : Database.zcard key d ≠ 0 := by
      rw [ne_eq, zcard_eq_zero_iff]
      exact fun h => h member hm
    simp [hm, hcard]
  · have hscore := zscore_eq_zero_of_not_isMember hm
    simp [hm, hscore]

/-- After `ZADD k 0 k`: one member, with the score zero. -/
def zeroScored : Data NatScore := (handleZadd [keyArg, keyArg, .bulkString (str "0"), keyArg] ∅).2

theorem find?_zeroScored : zeroScored.find? (str "k") =
    some { type := .zset, modCount := 1, zsetMemberToScore := UMap.set ∅ (str "k") 0,
           zsetScoreToMember := Multimap.insert ∅ 0 (str "k") } := by decide

/-- The score zero of a member is replied. -/
theorem zscore_of_zero_score :
    (handleZscore 0 [keyArg, keyArg, keyArg] zeroScored).1 ≠ nullBulk := by
  have hlive : Unexpired 0 (str "k") zeroScored := fun v hv => by
    rw [← Option.some.inj (find?_zeroScored.symm.trans hv)]
    rfl
  have hmem : IsMember (str "k") (str "k") zeroScored := ⟨_, find?_zeroScored, rfl, by decide⟩
  have hnull := (zscore_membership_iff 0 keyArg (str "k") (str "k") zeroScored hlive).1.mpr (.inl hmem)
  exact fun h => hnull.mp h hmem

/-- `ZSCORE k m` for a string that is no member of the set, next to one that is. -/
theorem zscore_of_missing_member :
    (handleZscore 0 [keyArg, keyArg, .bulkString (str "m")] zeroScored).1 = str "$1\r\n0\r\n" ∧
      (handleZrank [keyArg, keyArg, .bulkString (str "m")] zeroScored).1 = nullBulk ∧
      ¬ IsMember (str "k") (str "m") zeroScored ∧
      ¬ ((handleZscore 0 [keyArg, keyArg, .bulkString (str "m")] zeroScored).1 = nullBulk ↔
        ¬ IsMember (str "k") (str "m") zeroScored) := by
  have hmem : ¬ IsMember (str "k") (str "m") zeroScored := by
    intro h
    obtain ⟨v, hv, -, hm⟩ := h
    rw [← Option.some.inj (find?_zeroScored.symm.trans hv)] at hm
    exact absurd hm (by decide)
  exact ⟨by decide, by decide, hmem, fun h => absurd (h.mpr hmem) (by decide)⟩

end MinimalRedis
