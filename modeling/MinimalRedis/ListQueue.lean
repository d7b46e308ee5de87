import MinimalRedis.Database
import MinimalRedis.Lib.Simulation

/-!
# Lists are double-ended queues

`ListOp.apply` is the queue a list is for: a sequence on which the pushes add their values one by one
at an end, the pops take from an end, and a range is what stands at the positions between its bounds,
negative ones counted from the end.  `ListOp.call` is the method of `Database` on one key.

* `slice_eq_between`, `elementAt_eq` — the `int` arithmetic of the bounds is exact below `2 ^ 31`
  elements;
* `refines_call` — from a key that holds the queue, every method answers as the queue does;
* `list_refines_queue` — so does every sequence of calls on a key that is absent at first.
-/

namespace MinimalRedis

open Lib

variable {S : Type} [Score S] {α : Type}

/-! ### The queue -/

inductive ListOp where
  | lpush (values : List Bytes)
  | rpush (values : List Bytes)
  | lpop
  | rpop
  | llen
  | lrange (start stop : Int32)
  | lindex (index : Int32)

inductive ListOut where
  | length (n : ℕ)
  | element (s : Bytes)
  | elements (l : List Bytes)
deriving DecidableEq

/-- The position an index stands for: from the end when it is negative. -/
def position (n : ℕ) (index : ℤ) : ℤ := if index < 0 then n + index else index

/-- What stands at the positions from `i` to `j`. -/
def between (i j : ℤ) (q : List α) : List α :=
  (q.zipIdx.filter fun x => decide (i ≤ x.2 ∧ (x.2 : ℤ) ≤ j)).map Prod.fst

/-- What stands at position `i`. -/
def atPosition (i : ℤ) (q : List Bytes) : Bytes := if i < 0 then [] else q.getD i.toNat []

def ListOp.apply : ListOp → List Bytes → ListOut × List Bytes
  | .lpush values, q =>
      let q' := values.foldl (fun q v => v :: q) q
      (.length q'.length, q')
  | .rpush values, q =>
      let q' := values.foldl (fun q v => q ++ [v]) q
      (.length q'.length, q')
  | .lpop, q => (.element (q.headD []), q.tail)
  | .rpop, q => (.element (q.getLastD []), q.dropLast)
  | .llen, q => (.length q.length, q)
  | .lrange start stop, q =>
      (.elements (between (position q.length start.toInt) (position q.length stop.toInt) q), q)
  | .lindex index, q => (.element (atPosition (position q.length index.toInt) q), q)

/-- The method of `Database`, at a time. -/
def ListOp.call (key : Bytes) (op : ℤ × ListOp) (d : Data S) : ListOut × Data S :=
  match op.2 with
  | .lpush values => let x := Database.lpush key values d; (.length x.1, x.2)
  | .rpush values => let x := Database.rpush key values d; (.length x.1, x.2)
  | .lpop => let x := Database.lpop key d; (.element x.1, x.2)
  | .rpop => let x := Database.rpop key d; (.element x.1, x.2)
  | .llen => let x := Database.llen op.1 key d; (.length x.1, x.2)
  | .lrange start stop => (.elements (Database.lrange key start.toInt stop.toInt d), d)
  | .lindex index => (.element (Database.lindex key index.toInt d), d)

/-! ### Bounds -/

/-- The elements numbered from `n` on whose number is in `[a, b)`. -/
theorem filter_zipIdx (q : List α) (n a b : ℕ) :
    ((q.zipIdx n).filter fun x => decide (a ≤ x.2 ∧ x.2 < b)).map Prod.fst =
      (q.drop (a - n)).take (b - max a n) := by
  induction q generalizing n with
  | nil => simp
  | cons x q ih =>
    rw [List.zipIdx_cons, List.filter_cons]
    by_cases ha : a ≤ n
    · have hdrop : a - n = 0 := by omega
      have hrest : a - (n + 1) = 0 := by omega
      rw [hdrop, List.drop_zero, max_eq_right ha]
      have hih := ih (n + 1)
      rw [hrest, List.drop_zero, max_eq_right (show a ≤ n + 1 by omega)] at hih
      by_cases hb : n < b
      · obtain ⟨k, hk⟩ : ∃ k, b - n = k + 1 := ⟨b - n - 1, by omega⟩
        rw [if_pos (by simp [ha, hb]), List.map_cons, hih, hk, List.take_succ_cons]
        rw [show b - (n + 1) = k by omega]
      · rw [if_neg (by simp [hb]), hih, show b - n = 0 by omega, show b - (n + 1) = 0 by omega,
          List.take_zero, List.take_zero]
    · rw [if_neg (by simp [ha]), ih (n + 1)]
      obtain ⟨k, hk⟩ : ∃ k, a - n = k + 1 := ⟨a - n - 1, by omega⟩
      rw [hk, List.drop_succ_cons, show a - (n + 1) = k by omega,
        max_eq_left (show n + 1 ≤ a by omega), max_eq_left (show n ≤ a by omega)]

theorem between_eq (i j : ℤ) (q : List α) :
    between i j q = (q.drop i.toNat).take ((j + 1).toNat - i.toNat) := by
  have hfilter := filter_zipIdx q 0 i.toNat (j + 1).toNat
  rw [Nat.sub_zero, Nat.max_zero] at hfilter
  rw [← hfilter, between]
  have hbounds : (fun x : α × ℕ => decide (i ≤ x.2 ∧ (x.2 : ℤ) ≤ j)) =
      fun x => decide (i.toNat ≤ x.2 ∧ x.2 < (j + 1).toNat) := by
    funext x
    rw [decide_eq_decide]
    omega
  rw [hbounds]

theorem wrap32_of_fits {z : ℤ} (hlow : -2 ^ 31 ≤ z) (hhigh : z < 2 ^ 31) : wrap32 z = z :=
  Int.bmod_eq_of_le (by omega) (by omega)

section Bounds

variable {q : List α} (hq : q.length < 2 ^ 31)

include hq

/-- A bound of the code is the position it stands for. -/
theorem bound_eq_position (index : Int32) :
    (if index.toInt < 0 then wrap32 (q.length + index.toInt) else index.toInt) =
      position q.length index.toInt := by
  have hlow := index.le_toInt
  rw [position]
  split
  · exact wrap32_of_fits (by omega) (by omega)
  · rfl

theorem slice_eq_between (start stop : Int32) :
    Database.slice q start.toInt stop.toInt =
      between (position q.length start.toInt) (position q.length stop.toInt) q := by
  rw [between_eq, Database.slice, bound_eq_position hq, bound_eq_position hq,
    wrap32_of_fits (by omega) (by omega)]
  generalize position q.length start.toInt = i
  generalize position q.length stop.toInt = j
  show (if max 0 i ≤ min ((q.length : ℤ) - 1) j then _ else _) = _
  split
  · rename_i hle
    rw [show (max 0 i).toNat = i.toNat by omega]
    rcases le_total j (q.length - 1) with hj | hj
    · rw [min_eq_right hj] at hle ⊢
      rw [show (j - max 0 i + 1).toNat = (j + 1).toNat - i.toNat by omega]
    · -- both counts reach past the end
      rw [min_eq_left hj] at hle ⊢
      rw [List.take_of_length_le (by rw [List.length_drop]; omega),
        List.take_of_length_le (by rw [List.length_drop]; omega)]
  · rename_i hempty
    rw [eq_comm, List.take_eq_nil_iff, List.drop_eq_nil_iff]
    omega

end Bounds

theorem elementAt_eq {q : List Bytes} (hq : q.length < 2 ^ 31) (index : Int32) :
    Database.elementAt q index.toInt = atPosition (position q.length index.toInt) q := by
  rw [Database.elementAt, bound_eq_position hq, atPosition]
  generalize position q.length index.toInt = i
  show (if 0 ≤ i ∧ i < q.length then _ else _) = _
  split
  · rename_i hin
    rw [if_neg (by omega)]
  · split
    · rfl
    · rw [List.getD_eq_getElem?_getD, List.getElem?_eq_none (by omega)]
      rfl

/-! ### The refinement -/

theorem foldl_cons_eq (values q : List Bytes) :
    values.foldl (fun q v => v :: q) q = values.reverse ++ q := by
  induction values generalizing q with
  | nil => rfl
  | cons v values ih => rw [List.foldl_cons, ih, List.reverse_cons, List.append_assoc]; rfl

theorem foldl_concat_eq (values q : List Bytes) :
    values.foldl (fun q v => q ++ [v]) q = q ++ values := by
  induction values generalizing q with
  | nil => rw [List.foldl_nil, List.append_nil]
  | cons v values ih => rw [List.foldl_cons, ih, List.append_assoc]; rfl

/-- The key holds the queue: absent while it is empty, or a list without expiry. -/
def HoldsQueue (key : Bytes) (d : Data S) (q : List Bytes) : Prop :=
  (d.find? key = none ∧ q = []) ∨
    ∃ v, d.find? key = some v ∧ v.type = .list ∧ v.expiryTime = 0 ∧ v.listVal = q

section Refinement

variable {key : Bytes} {d : Data S} {q : List Bytes}

theorem HoldsQueue.write (h : HoldsQueue key d q) (q' : List Bytes) :
    HoldsQueue key (Database.writeThrough
      (fun val => { val with type := .list, listVal := q' }) key d) q' := by
  refine .inr ⟨_, UMap.find?_set_self _ _ _, rfl, ?_, rfl⟩
  rcases h with ⟨hnone, -⟩ | ⟨v, hv, -, hexpiry, -⟩
  · rw [hnone]
    rfl
  · rw [hv]
    exact hexpiry

/-- The list that a push finds. -/
theorem HoldsQueue.listVal (h : HoldsQueue key d q) : ((d.find? key).getD default).listVal = q := by
  rcases h with ⟨hnone, rfl⟩ | ⟨v, hv, -, -, hlist⟩
  · rw [hnone]
    rfl
  · rw [hv]
    exact hlist

theorem HoldsQueue.readTyped {absent : α} (h : HoldsQueue key d q) (read : List Bytes → α)
    (habsent : read [] = absent) :
    Database.readTyped .list absent (fun v => read v.listVal) key d = read q := by
  rcases h with ⟨hnone, rfl⟩ | ⟨v, hv, htype, -, rfl⟩
  · simp only [Database.readTyped, hnone, habsent]
  · rw [Database.readTyped_of_find? hv htype]

/-- A pop, at either end. -/
theorem HoldsQueue.updateTyped (h : HoldsQueue key d q) (take : List Bytes → Bytes)
    (rest : List Bytes → List Bytes) (htake : take [] = []) (hrest : rest [] = []) :
    let x := Database.updateTyped .list []
      (fun v => (take v.listVal, { v with listVal := rest v.listVal })) key d
    x.1 = take q ∧ HoldsQueue key x.2 (rest q) := by
  rcases h with ⟨hnone, rfl⟩ | ⟨v, hv, htype, hexpiry, rfl⟩
  · simp only [Database.updateTyped, hnone]
    exact ⟨htake.symm, .inl ⟨hnone, hrest⟩⟩
  · simp only [Database.updateTyped, hv, if_pos htype]
    exact ⟨trivial, .inr ⟨_, UMap.find?_set_self _ _ _, htype, hexpiry, rfl⟩⟩

/-- Every method answers as the queue does. -/
theorem refines_call (op : ℤ × ListOp) (h : HoldsQueue key d q) (hq : q.length < 2 ^ 31) :
    (ListOp.call key op d).1 = (op.2.apply q).1 ∧
      HoldsQueue key (ListOp.call key op d).2 (op.2.apply q).2 := by
  obtain ⟨now, op⟩ := op
  cases op with
  | lpush values =>
    have hwrite := h.write (values.reverse ++ q)
    have hpush : (Database.lpush key values d).2 = Database.writeThrough
        (fun val => { val with type := .list, listVal := values.reverse ++ q }) key d := by
      rw [← h.listVal]
      rfl
    simp only [ListOp.call, ListOp.apply, foldl_cons_eq]
    rw [hpush]
    refine ⟨?_, hwrite⟩
    show ListOut.length
      ((Option.getD (UMap.find? (Database.lpush key values d).2 key) default).listVal.length) = _
    rw [hpush, hwrite.listVal]
  | rpush values =>
    have hwrite := h.write (q ++ values)
    have hpush : (Database.rpush key values d).2 = Database.writeThrough
        (fun val => { val with type := .list, listVal := q ++ values }) key d := by
      rw [← h.listVal]
      rfl
    simp only [ListOp.call, ListOp.apply, foldl_concat_eq]
    rw [hpush]
    refine ⟨?_, hwrite⟩
    show ListOut.length
      ((Option.getD (UMap.find? (Database.rpush key values d).2 key) default).listVal.length) = _
    rw [hpush, hwrite.listVal]
  | lpop =>
    obtain ⟨hout, hholds⟩ :=
      h.updateTyped (fun l => l.headD []) List.tail rfl rfl
    exact ⟨congrArg ListOut.element hout, hholds⟩
  | rpop =>
    obtain ⟨hout, hholds⟩ :=
      h.updateTyped (fun l => l.getLastD []) List.dropLast rfl rfl
    exact ⟨congrArg ListOut.element hout, hholds⟩
  | llen =>
    rcases h with ⟨hnone, rfl⟩ | ⟨v, hv, htype, hexpiry, rfl⟩
    · simp only [ListOp.call, ListOp.apply, Database.llen, Database.ifTypedLive, hnone]
      exact ⟨rfl, .inl ⟨hnone, rfl⟩⟩
    · simp only [ListOp.call, ListOp.apply, Database.llen, Database.ifTypedLive, hv, htype, if_true,
        RedisValue.isExpired_of_expiryTime_zero hexpiry, Bool.false_eq_true, if_false]
      exact ⟨trivial, .inr ⟨v, hv, htype, hexpiry, rfl⟩⟩
  | lrange start stop =>
    refine ⟨?_, h⟩
    show ListOut.elements (Database.lrange key start.toInt stop.toInt d) = _
    rw [Database.lrange, h.readTyped (fun l => Database.slice l start.toInt stop.toInt),
      slice_eq_between hq]
    · rfl
    · exact (slice_eq_between (q := []) (by decide) start stop).trans (by rw [between]; rfl)
  | lindex index =>
    refine ⟨?_, h⟩
    show ListOut.element (Database.lindex key index.toInt d) = _
    rw [Database.lindex, h.readTyped (fun l => Database.elementAt l index.toInt),
      elementAt_eq hq]
    · rfl
    · rw [elementAt_eq (q := []) (by decide), atPosition]
      split <;> rfl

end Refinement

theorem lpush_lpush (key : Bytes) (xs ys : List Bytes) (d : Data S) :
    Database.lpush key ys (Database.lpush key xs d).2 = Database.lpush key (xs ++ ys) d := by
  have hdata : (Database.lpush key ys (Database.lpush key xs d).2).2 =
      (Database.lpush key (xs ++ ys) d).2 := by
    simp only [Database.lpush, Database.writeThrough, UMap.find?_set_self, UMap.set_set,
      Option.getD_some, List.reverse_append, List.append_assoc]
  refine Prod.ext ?_ hdata
  exact congrArg (fun d' : Data S => ((d'.find? key).getD default).listVal.length) hdata

/-- **Every sequence of calls** on an absent key answers as the queue does from the empty sequence, as
long as each finds fewer than `2 ^ 31` elements; and a push of two lists is two pushes. -/
theorem list_refines_queue (key : Bytes) (d : Data S) (habsent : d.find? key = none)
    (ops : List (ℤ × ListOp))
    (hsmall : AlongOps (fun _ q => q.length < 2 ^ 31) (fun op => op.2.apply) ops []) :
    (runOps (ListOp.call key) ops d).1 = (runOps (fun op => op.2.apply) ops []).1 ∧
    HoldsQueue key (runOps (ListOp.call key) ops d).2 (runOps (fun op => op.2.apply) ops []).2 ∧
    ∀ (xs ys : List Bytes) (d' : Data S),
      Database.lpush key (xs ++ ys) d' = Database.lpush key ys (Database.lpush key xs d').2 := by
  have hstart : HoldsQueue key d [] := .inl ⟨habsent, rfl⟩
  obtain ⟨houts, hholds⟩ :=
    runOps_simulates (fun op d' q h hq => refines_call (S := S) op h hq) hstart hsmall
  exact ⟨houts, hholds, fun xs ys d' => (lpush_lpush key xs ys d').symm⟩

/-- `RPUSH a b`, `LPUSH c d`, a pop at each end, the whole range, and the last element. -/
theorem list_refines_queue_pushes :
    (runOps (ListOp.call [107]) [(0, .rpush [[97], [98]]), (0, .lpush [[99], [100]]), (1, .lpop),
      (2, .rpop), (3, .lrange 0 (-1)), (3, .lindex (-1))] (∅ : Data NatScore)).1 =
    [.length 2, .length 4, .element [100], .element [98], .elements [[99], [97]], .element [97]] := by
  have h := list_refines_queue [107] (∅ : Data NatScore) rfl [(0, .rpush [[97], [98]]),
    (0, .lpush [[99], [100]]), (1, .lpop), (2, .rpop), (3, .lrange 0 (-1)), (3, .lindex (-1))]
    ⟨by decide, by decide, by decide, by decide, by decide, by decide, trivial⟩
  rw [h.1]
  decide

end MinimalRedis
