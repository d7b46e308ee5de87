import MinimalRedis.ErrorReplies

/-!
# Numbers in arguments

Six handlers read a number with `std::stoi` or `std::stoll`, which skip blanks and stop at the first
byte that no longer belongs to a numeral.  `Accepts` says what reading a number should mean: the handler
goes on with the number when the whole text is one in range, and refuses every other text with its own
error and nothing changed.

* `accepts_iff` — a handler built on a reader that also takes other texts is right exactly when it is
  given none of them;
* `numeric_arguments_iff` — the six handlers: right exactly when no text merely begins with a number.
-/

namespace MinimalRedis

open Lib

variable {S : Type} [Score S]

/-! ### Readers -/

section Readers

variable {α : Type} {Whole Head : α → Prop} {err : Bytes} {run : α → Bytes × Data S} {d : Data S}
  {x : Bytes × Data S}

/-- `run` is the handler behind the reading, `Whole` says which values the arguments have. -/
structure Accepts (Whole : α → Prop) (err : Bytes) (run : α → Bytes × Data S) (d : Data S)
    (x : Bytes × Data S) : Prop where
  proceeds : ∀ a, Whole a → x = run a
  refuses : (∀ a, ¬ Whole a) → x = (err, d)

theorem accepts_iff {read : Option α} (hread : ∀ a, read = some a ↔ Head a)
    (hwhole : ∀ a, Whole a → Head a) (hrun : ∀ a, (run a).1 ≠ err) (hx : x = read.elim (err, d) run) :
    Accepts Whole err run d x ↔ ∀ a, Head a → Whole a := by
  subst hx
  cases hn : read with
  | none =>
    have hnone : ∀ a, ¬ Head a := by
      intro a ha
      rw [← hread, hn] at ha
      cases ha
    exact iff_of_true ⟨fun a ha => absurd (hwhole a ha) (hnone a), fun _ => rfl⟩
      fun a ha => absurd ha (hnone a)
  | some n =>
    have hone : ∀ a, Head a → a = n := fun a ha =>
      (Option.some.inj (hn.symm.trans ((hread a).mpr ha))).symm
    constructor
    · intro h a ha
      by_contra hnot
      have hrefused := h.refuses fun b hb => hnot (hone a ha ▸ hone b (hwhole b hb) ▸ hb)
      exact hrun n (congrArg Prod.fst hrefused)
    · intro h
      have hwhole' := h n ((hread n).mp hn)
      refine ⟨fun a ha => ?_, fun hnone => absurd hwhole' (hnone n)⟩
      rw [hone a (hwhole a ha)]
      rfl

end Readers

/-! ### Texts -/

def InInt (n : ℤ) : Prop := -(2 ^ 31) ≤ n ∧ n < 2 ^ 31

def InLongLong (n : ℤ) : Prop := -(2 ^ 63) ≤ n ∧ n < 2 ^ 63

/-- The whole text is a numeral in range. -/
def WholeNumber (inRange : ℤ → Prop) (text : Bytes) (n : ℤ) : Prop := Numeral text n ∧ inRange n

/-- The text begins with a numeral in range, blanks in front of it or not. -/
def LeadingNumber (inRange : ℤ → Prop) (text : Bytes) (n : ℤ) : Prop :=
  BeginsWith text n ∧ inRange n

theorem WholeNumber.leading {inRange : ℤ → Prop} {text : Bytes} {n : ℤ}
    (h : WholeNumber inRange text n) : LeadingNumber inRange text n := ⟨h.1.beginsWith, h.2⟩

/-- Both texts have a value. -/
def Both (P Q : ℤ → Prop) (p : ℤ × ℤ) : Prop := P p.1 ∧ Q p.2

/-- The two bounds of a range. -/
def readBounds (start stop : Bytes) : Option (ℤ × ℤ) :=
  (stoi start).bind fun m => (stoi stop).map fun n => (m, n)

theorem readBounds_eq_some_iff {start stop : Bytes} (p : ℤ × ℤ) :
    readBounds start stop = some p ↔
      Both (LeadingNumber InInt start) (LeadingNumber InInt stop) p := by
  rw [readBounds, Option.bind_eq_some_iff]
  simp only [Option.map_eq_some_iff, stoi_eq_some_iff]
  constructor
  · intro h
    obtain ⟨m, hm, n, hn, rfl⟩ := h
    exact ⟨hm, hn⟩
  · intro h
    obtain ⟨hm, hn⟩ := h
    exact ⟨p.1, hm, p.2, hn, rfl⟩

theorem errReply_ne {msg : String} {reply : Bytes} (h : ¬ IsError reply) : reply ≠ errReply msg := by
  rintro rfl
  exact h (isError_errReply msg)

/-! ### Handlers -/

section Handlers

variable (name : RespValue) (key : Bytes) (d : Data S)

/-- The shape of `LRANGE`, `ZRANGE` and `ZREVRANGE`. -/
theorem withRange_accepts_iff {accepts : ℕ → Bool} {arity notBulk notInt : String}
    (read : Bytes → ℤ → ℤ → Data S → Bytes) (hread : ∀ m n, ¬ IsError (read key m n d))
    (start stop : RespValue) (more : List RespValue) (hcount : accepts (more.length + 4) = true) :
    Accepts (Both (WholeNumber InInt start.strVal) (WholeNumber InInt stop.strVal))
        (errReply notInt) (fun p => (read key p.1 p.2 d, d)) d
        (withRange accepts arity notBulk notInt read
          (name :: .bulkString key :: start :: stop :: more) d) ↔
      ∀ p, Both (LeadingNumber InInt start.strVal) (LeadingNumber InInt stop.strVal) p →
        Both (WholeNumber InInt start.strVal) (WholeNumber InInt stop.strVal) p := by
  apply accepts_iff readBounds_eq_some_iff
  · intro p hp
    exact ⟨hp.1.leading, hp.2.leading⟩
  · intro p
    exact errReply_ne (hread p.1 p.2)
  · rw [withRange, readBounds]
    simp only [List.length_cons, hcount, if_true, RespValue.bulk?]
    cases stoi start.strVal with
    | none => rfl
    | some m => cases stoi stop.strVal <;> rfl

/-- `LINDEX` behind its index. -/
def lindexFound (now : ℤ) (key : Bytes) (d : Data S) (index : ℤ) : Bytes × Data S :=
  let value := Database.lindex key index d
  if value = [] then (nullBulk, (Database.keyExists now key d).2) else (bulkReply value, d)

theorem lindex_accepts_iff (now : ℤ) (index : RespValue) :
    Accepts (WholeNumber InInt index.strVal) (errReply "ERR LINDEX index must be an integer")
        (lindexFound now key d) d (handleLindex now [name, .bulkString key, index] d) ↔
      ∀ n, LeadingNumber InInt index.strVal n → WholeNumber InInt index.strVal n := by
  apply accepts_iff (fun n => stoi_eq_some_iff (s := index.strVal) (n := n))
  · intro n hn
    exact hn.leading
  · intro n
    apply errReply_ne
    rw [lindexFound]
    split
    · exact not_isError_nullBulk
    · exact not_isError_bulkReply _
  · rw [handleLindex]
    simp only [RespValue.bulk?]
    cases stoi index.strVal <;> rfl

/-- The shape of `EXPIRE` and `PEXPIRE`. -/
theorem withDuration_accepts_iff {arity notBulk notInt : String}
    (run : Bytes → ℤ → Data S → Bytes × Data S) (hrun : ∀ n, ¬ IsError (run key n d).1)
    (text : Bytes) :
    Accepts (WholeNumber InLongLong text) (errReply notInt) (fun n => run key n d) d
        (withDuration arity notBulk notInt run [name, .bulkString key, .bulkString text] d) ↔
      ∀ n, LeadingNumber InLongLong text n → WholeNumber InLongLong text n := by
  apply accepts_iff (fun n => stoll_eq_some_iff (s := text) (n := n))
  · intro n hn
    exact hn.leading
  · intro n
    exact errReply_ne (hrun n)
  · rw [withDuration, withTwo]
    simp only [RespValue.bulk?]
    cases stoll text <;> rfl

end Handlers

/-- `EXPIRE` and `PEXPIRE` behind their duration. -/
def expireFound (expire : Bytes → ℤ → Data S → Bool × Data S) (key : Bytes) (d : Data S) (n : ℤ) :
    Bytes × Data S :=
  let result := expire key n d
  (boolReply result.1, if result.1 then Database.incrementModCount key result.2 else result.2)

/-- Each handler goes on with a number exactly when the whole text is one in its range, and refuses
the text otherwise, exactly when the text does not begin with such a number without being one: with
blanks in front of it, or anything but a digit behind it. -/
theorem numeric_arguments_iff (now : ℤ) (name : RespValue) (key text : Bytes) (d : Data S)
    (start stop : RespValue) (more : List RespValue) :
    let bounds := ∀ p, Both (LeadingNumber InInt start.strVal) (LeadingNumber InInt stop.strVal) p →
      Both (WholeNumber InInt start.strVal) (WholeNumber InInt stop.strVal) p
    let duration := ∀ n, LeadingNumber InLongLong text n → WholeNumber InLongLong text n
    (Accepts (Both (WholeNumber InInt start.strVal) (WholeNumber InInt stop.strVal))
        (errReply "ERR LRANGE start and end must be integers")
        (fun p => (arrayReply (Database.lrange key p.1 p.2 d), d)) d
        (handleLrange [name, .bulkString key, start, stop] d) ↔ bounds) ∧
    (Accepts (Both (WholeNumber InInt start.strVal) (WholeNumber InInt stop.strVal))
        (errReply "ERR ZRANGE start and end must be integers")
        (fun p => (arrayReply (Database.zrange key p.1 p.2 d), d)) d
        (handleZrange (name :: .bulkString key :: start :: stop :: more) d) ↔ bounds) ∧
    (Accepts (Both (WholeNumber InInt start.strVal) (WholeNumber InInt stop.strVal))
        (errReply "ERR ZREVRANGE start and end must be integers")
        (fun p => (arrayReply (Database.zrevrange key p.1 p.2 d), d)) d
        (handleZrevrange (name :: .bulkString key :: start :: stop :: more) d) ↔ bounds) ∧
    (Accepts (WholeNumber InInt start.strVal) (errReply "ERR LINDEX index must be an integer")
        (lindexFound now key d) d (handleLindex now [name, .bulkString key, start] d) ↔
      ∀ n, LeadingNumber InInt start.strVal n → WholeNumber InInt start.strVal n) ∧
    (Accepts (WholeNumber InLongLong text) (errReply "ERR EXPIRE seconds must be an integer")
        (expireFound (Database.expire now) key d) d
        (handleExpire now [name, .bulkString key, .bulkString text] d) ↔ duration) ∧
    (Accepts (WholeNumber InLongLong text) (errReply "ERR PEXPIRE milliseconds must be an integer")
        (expireFound (Database.pexpire now) key d) d
        (handlePexpire now [name, .bulkString key, .bulkString text] d) ↔ duration) :=
  ⟨withRange_accepts_iff name key d (fun key m n d => arrayReply (Database.lrange key m n d))
      (fun _ _ => not_isError_arrayReply _) start stop [] rfl,
    withRange_accepts_iff name key d (fun key m n d => arrayReply (Database.zrange key m n d))
      (fun _ _ => not_isError_arrayReply _) start stop more rfl,
    withRange_accepts_iff name key d (fun key m n d => arrayReply (Database.zrevrange key m n d))
      (fun _ _ => not_isError_arrayReply _) start stop more rfl,
    lindex_accepts_iff name key d now start,
    withDuration_accepts_iff name key d (fun key n d => expireFound (Database.expire now) key d n)
      (fun _ => not_isError_boolReply _) text,
    withDuration_accepts_iff name key d (fun key n d => expireFound (Database.pexpire now) key d n)
      (fun _ => not_isError_boolReply _) text⟩

/-- `EXPIRE k 1x` sets a time to live of one second. -/
theorem expire_accepts_trailing_text :
    let k : RespValue := .bulkString (str "k")
    let d : Data NatScore := (handleSet [k, k, k] ∅).2
    (handleExpire 0 [k, k, .bulkString (str "1x")] d).1 = boolReply true ∧
      (handleTtl 0 [k, k] (handleExpire 0 [k, k, .bulkString (str "1x")] d).2).1 = intReply 1 ∧
      ¬ Accepts (WholeNumber InLongLong (str "1x")) (errReply "ERR EXPIRE seconds must be an integer")
        (expireFound (Database.expire 0) (str "k") d) d
        (handleExpire 0 [k, k, .bulkString (str "1x")] d) := by
  intro k d
  refine ⟨by decide, by decide, fun h => ?_⟩
  have hrefused := h.refuses fun n hn =>
    hn.1.not_mem (show isDigit 120 = false by decide) (by decide) (by decide) (by decide)
  exact absurd (congrArg Prod.fst hrefused) (by decide)

end MinimalRedis
