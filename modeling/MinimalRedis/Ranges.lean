import MinimalRedis.ElementReplies
import MinimalRedis.ZsetRank

/-!
# Index ranges

`lrange`, `zrange` and `zrevrange` normalise and clamp two bounds in the same way; `lindex` normalises
one.  Below `2 ^ 31` elements nothing is lost on the way through `int`, and the three ranges are what
stands between two positions (`between`).

* `lrange_lindex_exact` — ranges and single elements of a list;
* `between_reverse` — a range counted from the other end;
* `zrevrange_mirrors_zrange` — the two walks of a sorted set.
-/

namespace MinimalRedis

open Lib

variable {S : Type} [Score S] {α : Type}

/-! ### Lists -/

section Lists

variable {key : Bytes} {d : Data S} {v : RedisValue S} (hv : d.find? key = some v)
  (htype : v.type = .list)

include hv htype

theorem listAt_of_find? : listAt key d = v.listVal := by
  rw [listAt, Database.readTyped_of_find? hv htype]

/-- `lrange` gives exactly the elements between the positions of its bounds, in order; `lindex` returns
an element exactly when `lrange` from the index to itself is one element, and then that one; and every
conversion on the way keeps its value. -/
theorem lrange_lindex_exact (hlen : v.listVal.length < 2 ^ 31) :
    (∀ start stop : Int32, Database.lrange key start.toInt stop.toInt d =
      between (position v.listVal.length start.toInt) (position v.listVal.length stop.toInt)
        v.listVal) ∧
    (∀ index : Int32, Database.lindex key index.toInt d =
        (element? (intPosition v.listVal.length index.toInt) v.listVal).getD [] ∧
      ∀ x, element? (intPosition v.listVal.length index.toInt) v.listVal = some x ↔
        Database.lrange key index.toInt index.toInt d = [x]) ∧
    wrap32 v.listVal.length = v.listVal.length ∧
    ∀ index : Int32,
      intPosition v.listVal.length index.toInt = position v.listVal.length index.toInt := by
  have hlist := listAt_of_find? hv htype
  have hwrap : wrap32 (v.listVal.length : ℤ) = v.listVal.length :=
    wrap32_of_fits (by omega) (by omega)
  refine ⟨fun start stop => ?_, fun index => ⟨?_, fun x => ?_⟩, hwrap,
    fun index => bound_eq_position hlen index⟩
  · rw [lrange_eq_slice, hlist, slice_eq_between hlen]
  · rw [lindex_eq_elementAt, hlist, elementAt_eq_getD]
  · rw [lrange_eq_slice, hlist, slice_self, hwrap, element?]
    generalize intPosition v.listVal.length index.toInt = p
    by_cases hneg : p < 0
    · rw [if_pos hneg, if_neg (by omega)]
      exact iff_of_false (by simp) (by simp)
    · rw [if_neg hneg]
      by_cases hin : p < v.listVal.length
      · have hlt : p.toNat < v.listVal.length := by omega
        rw [if_pos ⟨by omega, hin⟩, List.getElem?_eq_getElem hlt, List.drop_eq_getElem_cons hlt,
          List.take_succ_cons, List.take_zero, Option.some.injEq, List.cons.injEq, and_iff_left rfl]
      · rw [if_neg (by omega), List.getElem?_eq_none (by omega)]
        exact iff_of_false (by simp) (by simp)

end Lists

/-- The last two of three elements, and the first. -/
theorem lrange_lindex_abc :
    let l : List Bytes := [str "a", str "b", str "c"]
    let d : Data NatScore := UMap.set ∅ (str "k") { type := .list, listVal := l }
    Database.lrange (str "k") (-2) 7 d = between 1 7 l ∧
      Database.lindex (str "k") 0 d = str "a" ∧ Database.lrange (str "k") 0 0 d = [str "a"] := by
  intro l d
  obtain ⟨hrange, hindex, -, -⟩ := lrange_lindex_exact (UMap.find?_set_self (∅ : Data NatScore)
    (str "k") { type := .list, listVal := l }) rfl (show (3 : ℕ) < 2 ^ 31 by decide)
  exact ⟨hrange (-2) 7, (hindex 0).1, ((hindex 0).2 (str "a")).mp rfl⟩

/-! ### Walks of a sorted set -/

/-- The same range, counted from the other end. -/
theorem between_reverse (i j : ℤ) (q : List α) :
    between i j q.reverse = (between (q.length - 1 - j) (q.length - 1 - i) q).reverse := by
  rw [between_eq, between_eq, ← List.drop_take (l := q), List.reverse_drop, List.reverse_take,
    List.length_take]
  by_cases hi : i ≤ q.length
  · -- the front bound is the same on both sides
    rw [show q.length - ((q.length : ℤ) - 1 - i + 1).toNat = i.toNat by omega]
    by_cases hj : j ≤ q.length - 1
    · congr 1
      omega
    · -- both counts reach past the end
      rw [List.take_of_length_le (by rw [List.length_drop, List.length_reverse]; omega),
        List.take_of_length_le (by rw [List.length_drop, List.length_reverse]; omega)]
  · rw [List.drop_eq_nil_of_le (by rw [List.length_reverse]; omega),
      List.drop_eq_nil_of_le (by rw [List.length_reverse]; omega), List.take_nil, List.take_nil]

/-- `-1 - x` stays inside 32 bits. -/
theorem toInt_neg_one_sub (x : Int32) : (-1 - x).toInt = -1 - x.toInt := by
  have hlow := x.le_toInt
  have hhigh := x.toInt_lt
  rw [Int32.toInt_sub]
  show ((-1 : ℤ) - x.toInt).bmod (2 ^ 32) = _
  exact Int.bmod_eq_of_le (by omega) (by omega)

theorem position_neg_one_sub (n : ℕ) (x : ℤ) : position n (-1 - x) = n - 1 - position n x := by
  rw [position, position]
  split <;> split <;> omega

section Walks

variable {key : Bytes} {d : Data S} {v : RedisValue S} (hv : d.find? key = some v)
  (htype : v.type = .zset)

include hv htype

theorem zrevrange_of_find? (start stop : ℤ) :
    Database.zrevrange key start stop d = Database.slice v.walk.reverse start stop := by
  rw [Database.zrevrange, Database.readTyped_of_find? hv htype, RedisValue.walk]

/-- For a sorted set whose indexes agree: `zrevrange` is `zrange` of the mirrored bounds, backwards;
the whole range lists every member once; and each range is a slice of it. -/
theorem zrevrange_mirrors_zrange (hagree : v.IndexesAgree) (hlen : v.zsetMemberToScore.size < 2 ^ 31) :
    (∀ s e : Int32, Database.zrevrange key s.toInt e.toInt d =
      (Database.zrange key (-1 - e).toInt (-1 - s).toInt d).reverse) ∧
    (∀ s e : Int32, (-1 - e).toInt = -1 - e.toInt ∧ (-1 - s).toInt = -1 - s.toInt) ∧
    (Database.zrange key 0 (-1) d).Nodup ∧
    (∀ m, m ∈ Database.zrange key 0 (-1) d ↔ IsMember key m d) ∧
    ∀ s e : Int32, Database.zrange key s.toInt e.toInt d =
      between (position (Database.zcard key d) s.toInt) (position (Database.zcard key d) e.toInt)
        (Database.zrange key 0 (-1) d) := by
  have hwalk : v.walk.length = v.zsetMemberToScore.size := by
    rw [hagree.walk_perm_keys.length_eq, UMap.keys, List.length_map]
    rfl
  have hshort : v.walk.length < 2 ^ 31 := by omega
  have hall : Database.zrange key 0 (-1) d = v.walk := by
    rw [zrange_of_find? hv htype, Database.slice_all _ hshort]
  have hcard : Database.zcard key d = v.walk.length := by rw [zcard_of_find? hv htype, hwalk]
  refine ⟨fun s e => ?_, fun s e => ⟨toInt_neg_one_sub e, toInt_neg_one_sub s⟩, ?_, fun m => ?_,
    fun s e => ?_⟩
  · have hreverse : v.walk.reverse.length < 2 ^ 31 := by rwa [List.length_reverse]
    rw [zrevrange_of_find? hv htype, zrange_of_find? hv htype, slice_eq_between hreverse,
      slice_eq_between hshort, List.length_reverse, between_reverse, toInt_neg_one_sub,
      toInt_neg_one_sub, position_neg_one_sub, position_neg_one_sub]
  · rw [hall]
    exact hagree.nodup_walk
  · rw [hall, hagree.walk_perm_keys.mem_iff, UMap.mem_keys_iff]
    constructor
    · intro hm
      exact ⟨v, hv, htype, hm⟩
    · intro h
      obtain ⟨w, hw, -, hm⟩ := h
      rwa [Option.some.inj (hv.symm.trans hw)]
  · rw [hall, hcard, zrange_of_find? hv htype, slice_eq_between hshort]

end Walks

/-- Two members, the second walk from the last to the one before it. -/
theorem zrevrange_two_members :
    let d : Data NatScore := (handleZadd (keyArg :: keyArg :: [.bulkString (str "1"),
      .bulkString (str "a"), .bulkString (str "2"), .bulkString (str "b")]) ∅).2
    Database.zrevrange (str "k") 0 (-1) d = (Database.zrange (str "k") 0 (-1) d).reverse ∧
      (str "a" ∈ Database.zrange (str "k") 0 (-1) d ↔ IsMember (str "k") (str "a") d) := by
  intro d
  obtain ⟨v, hv⟩ : ∃ v, d.find? (str "k") = some v := Option.isSome_iff_exists.mp (by decide)
  have hvalue : v = (d.find? (str "k")).getD default := by rw [hv]; rfl
  obtain ⟨hmirror, -, -, hmem, -⟩ := zrevrange_mirrors_zrange hv (by rw [hvalue]; decide)
    (by rw [hvalue, RedisValue.IndexesAgree]; decide) (by rw [hvalue]; decide)
  exact ⟨hmirror 0 (-1), hmem (str "a")⟩

end MinimalRedis
