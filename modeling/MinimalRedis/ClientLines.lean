import MinimalRedis.Client
import MinimalRedis.Lib.Framing

/-!
# The client's line splitter

`get_next_message` searches for CR LF from a stored position in a buffer that only grows.  What stands
behind the position is what the client has not returned yet, and on that it is the reader `nextLine`.

* `findCrlf_spec` — `find` finds the first CR LF, or there is none;
* `implements_nextLine` — `append` and `get_next_message` implement the reader;
* `lines_of_takes` — messages taken off some bytes: each ends with the first CR LF behind the one before
  it, and when none is left they end with the last;
* `splitter_lossless` — over every sequence of `append` and `get_next_message`.
-/

namespace MinimalRedis

namespace Client

open Lib

/-! ### The reader -/

/-- The bytes up to the first CR LF. -/
def nextLine (bs : Bytes) : Option (Bytes × Bytes) :=
  (findCrlf bs).map fun n => (bs.take (n + 2), bs.drop (n + 2))

/-- `find` gives the first position at which CR LF stands. -/
theorem findCrlf_spec (bs : Bytes) :
    (findCrlf bs = none ∧ ∀ x y, bs ≠ x ++ (crlf ++ y)) ∨
      ∃ line rest, findCrlf bs = some line.length ∧ bs = line ++ (crlf ++ rest) ∧
        ∀ x y, bs = x ++ (crlf ++ y) → line.length ≤ x.length := by
  induction bs with
  | nil => exact .inl ⟨rfl, fun x y h => by simp [crlf] at h⟩
  | cons b bs ih =>
    rw [findCrlf]
    by_cases hhere : b = 13 ∧ bs.head? = some 10
    · obtain ⟨rfl, hhead⟩ := hhere
      obtain ⟨rest, rfl⟩ := List.head?_eq_some_iff.mp hhead
      rw [if_pos ⟨rfl, hhead⟩]
      exact .inr ⟨[], rest, rfl, rfl, fun x y _ => Nat.zero_le _⟩
    · rw [if_neg hhere]
      -- what stands at the front of `b :: bs` is not CR LF
      have hbehind : ∀ x y, b :: bs = x ++ (crlf ++ y) → ∃ x', x = b :: x' ∧ bs = x' ++ (crlf ++ y) := by
        intro x y h
        cases x with
        | nil =>
          obtain ⟨rfl, rfl⟩ := List.cons.inj h
          exact absurd ⟨rfl, rfl⟩ hhere
        | cons b' x' =>
          obtain ⟨rfl, hbs⟩ := List.cons.inj h
          exact ⟨x', rfl, hbs⟩
      rcases ih with ⟨hnone, hno⟩ | ⟨line, rest, hsome, hbs, hfirst⟩
      · refine .inl ⟨by rw [hnone]; rfl, fun x y h => ?_⟩
        obtain ⟨x', -, hbs⟩ := hbehind x y h
        exact hno x' y hbs
      · refine .inr ⟨b :: line, rest, by rw [hsome]; rfl, by rw [hbs]; rfl, fun x y h => ?_⟩
        obtain ⟨x', rfl, hbs'⟩ := hbehind x y h
        exact Nat.succ_le_succ (hfirst x' y hbs')

theorem take_line (line rest : Bytes) :
    (line ++ (crlf ++ rest)).take (line.length + 2) = line ++ crlf := by
  rw [← List.append_assoc]
  exact List.take_left' List.length_append

theorem drop_line (line rest : Bytes) : (line ++ (crlf ++ rest)).drop (line.length + 2) = rest := by
  rw [← List.append_assoc]
  exact List.drop_left' List.length_append

/-- The reader by what it takes: a line with the first CR LF. -/
theorem nextLine_eq_some {bs m rest : Bytes} (h : nextLine bs = some (m, rest)) :
    ∃ line, m = line ++ crlf ∧ bs = m ++ rest ∧
      ∀ x y, bs = x ++ (crlf ++ y) → line.length ≤ x.length := by
  rw [nextLine] at h
  rcases findCrlf_spec bs with ⟨hnone, -⟩ | ⟨line, rest', hsome, hbs, hfirst⟩
  · rw [hnone] at h
    cases h
  · rw [hsome] at h
    obtain ⟨rfl, rfl⟩ := Prod.mk.inj (Option.some.inj h)
    refine ⟨line, ?_, (List.take_append_drop _ _).symm, hfirst⟩
    rw [hbs, take_line]

theorem nextLine_eq_none {bs : Bytes} (h : nextLine bs = none) : ∀ x y, bs ≠ x ++ (crlf ++ y) := by
  rcases findCrlf_spec bs with ⟨-, hno⟩ | ⟨line, rest, hsome, -, -⟩
  · exact hno
  · rw [nextLine, hsome] at h
    cases h

/-- A line with the first CR LF is what the reader takes. -/
theorem nextLine_of_first {bs line rest : Bytes} (h : bs = line ++ (crlf ++ rest))
    (hfirst : ∀ x y, bs = x ++ (crlf ++ y) → line.length ≤ x.length) :
    nextLine bs = some (line ++ crlf, rest) := by
  rcases findCrlf_spec bs with ⟨-, hno⟩ | ⟨line', rest', hsome, hbs, hfirst'⟩
  · exact absurd h (hno line rest)
  · have hlen : line'.length = line.length :=
      le_antisymm (hfirst' line rest h) (hfirst line' rest' hbs)
    obtain ⟨rfl, hrest⟩ := List.append_inj (hbs.symm.trans h) hlen
    obtain rfl := List.append_cancel_left hrest
    rw [nextLine, hsome, h, Option.map_some, take_line, drop_line]

theorem stable_nextLine : Stable nextLine := by
  intro bs m rest h ys
  obtain ⟨line, rfl, hbs, hfirst⟩ := nextLine_eq_some h
  apply nextLine_of_first
  · rw [hbs, List.append_assoc, List.append_assoc]
  · intro x y hxy
    by_contra hlt
    -- a CR LF before the end of the line would lie within `bs`
    have hlen : (x ++ crlf).length ≤ bs.length := by
      have hbslen := congrArg List.length hbs
      simp only [List.length_append] at hbslen ⊢
      omega
    rw [← List.append_assoc] at hxy
    obtain ⟨z, hz⟩ := List.prefix_of_prefix_length_le ⟨y, hxy.symm⟩ (List.prefix_append bs ys) hlen
    exact hlt (hfirst x z (by rw [← hz, List.append_assoc]))

theorem length_lt_of_nextLine {bs m rest : Bytes} (h : nextLine bs = some (m, rest)) :
    rest.length < bs.length := by
  obtain ⟨line, rfl, hbs, -⟩ := nextLine_eq_some h
  have hlen := congrArg List.length hbs
  simp only [List.length_append, crlf, List.length_cons, List.length_nil] at hlen
  omega

/-! ### The parser object -/

namespace RespParser

/-- A call of one of the two methods; `append` returns nothing. -/
def receive : Receive UInt8 → RespParser → Bytes × RespParser
  | .append data, p => ([], p.append data)
  | .next, p => p.getNextMessage

/-- What has not been returned yet. -/
def unread (p : RespParser) : Bytes := p.buffer.drop p.pos

/-- The position is in the buffer, or at its end. -/
def Valid (p : RespParser) : Prop := p.pos ≤ p.buffer.length

/-- The empty string stands for "no message". -/
def message (reply : Bytes) : Option Bytes := if reply = [] then none else some reply

theorem getNextMessage_eq (p : RespParser) :
    p.getNextMessage = match nextLine p.unread with
      | none => ([], p)
      | some x => (x.1, { p with pos := p.pos + x.1.length }) := by
  rw [getNextMessage, nextLine, unread]
  by_cases hend : p.buffer = [] ∨ p.pos ≥ p.buffer.length
  · have hnil : p.buffer.drop p.pos = [] := by
      rcases hend with hnil | hpos
      · rw [hnil, List.drop_nil]
      · exact List.drop_eq_nil_of_le hpos
    rw [if_pos hend, hnil]
    rfl
  · rw [if_neg hend]
    rcases findCrlf_spec (p.buffer.drop p.pos) with ⟨hnone, -⟩ | ⟨line, rest, hsome, hbs, -⟩
    · rw [hnone]
      rfl
    · rw [hsome]
      simp only [Option.map_some, hbs, take_line, List.length_append]
      rfl

theorem implements_nextLine : Implements nextLine receive Valid unread message where
  inv op p hp := by
    cases op with
    | append data =>
      show p.pos ≤ (p.buffer ++ data).length
      rw [List.length_append]
      exact hp.trans (Nat.le_add_right _ _)
    | next =>
      show p.getNextMessage.2.Valid
      rw [getNextMessage_eq]
      cases hline : nextLine p.unread with
      | none => exact hp
      | some x =>
        obtain ⟨m, rest⟩ := x
        obtain ⟨-, -, hbs, -⟩ := nextLine_eq_some hline
        have hlen := congrArg List.length hbs
        rw [unread, List.length_drop, List.length_append] at hlen
        show p.pos + m.length ≤ p.buffer.length
        have hle : p.pos ≤ p.buffer.length := hp
        omega
  append data p hp := ⟨rfl, List.drop_append_of_le_length hp⟩
  waits p _ hnone := by
    show message p.getNextMessage.1 = none ∧ unread p.getNextMessage.2 = unread p
    rw [getNextMessage_eq, hnone]
    exact ⟨rfl, rfl⟩
  gives p m rest _ hline := by
    obtain ⟨line, hm, hbs, -⟩ := nextLine_eq_some hline
    have hne : m ≠ [] := by
      rw [hm]
      simp [crlf]
    show message p.getNextMessage.1 = some m ∧ unread p.getNextMessage.2 = rest
    rw [getNextMessage_eq, hline]
    refine ⟨if_neg hne, ?_⟩
    show p.buffer.drop (p.pos + m.length) = rest
    rw [← List.drop_drop]
    show p.unread.drop m.length = rest
    rw [hbs, List.drop_left]

end RespParser

theorem RespParser.valid_runOps (ops : List (Receive UInt8)) :
    (runOps receive ops {}).2.Valid :=
  runOps_inv (P := fun _ _ => True) (fun op p hp _ => implements_nextLine.inv op p hp)
    (show Valid {} from le_refl 0) (alongOps_iff.mpr fun _ _ _ _ => trivial)

/-! ### Lines -/

/-- The messages are the input, line by line, up to its last CR LF. -/
structure Lines (input : Bytes) (messages : List Bytes) : Prop where
  each : ∀ before m after, messages = before ++ m :: after → ∃ line rest, m = line ++ crlf ∧
    input = before.flatten ++ (m ++ rest) ∧
    ∀ x y, m ++ rest = x ++ (crlf ++ y) → line.length ≤ x.length
  last : ∃ rest, input = messages.flatten ++ rest ∧
    ∀ x y, input = x ++ (crlf ++ y) → x.length + 2 ≤ messages.flatten.length

theorem flatten_of_takes {input rest : Bytes} {messages : List Bytes}
    (h : Takes nextLine input messages rest) : input = messages.flatten ++ rest := by
  have hbytes : ∀ xs m rest, nextLine xs = some (m, rest) → xs = id m ++ rest := by
    intro xs m rest hline
    obtain ⟨-, -, hbs, -⟩ := nextLine_eq_some hline
    exact hbs
  have hflat := h.flatMap_append hbytes
  rwa [List.flatMap_id] at hflat

theorem lines_of_takes {input rest : Bytes} {messages : List Bytes}
    (h : Takes nextLine input messages rest) (hdone : nextLine rest = none) :
    Lines input messages := by
  refine ⟨?_, rest, flatten_of_takes h, ?_⟩
  · intro before m after hmessages
    induction before generalizing input messages with
    | nil =>
      cases h with
      | done => cases hmessages
      | take hline _ =>
        obtain ⟨rfl, -⟩ := List.cons.inj hmessages
        obtain ⟨line, hm, hbs, hfirst⟩ := nextLine_eq_some hline
        rw [hbs] at hfirst
        exact ⟨line, _, hm, hbs, hfirst⟩
    | cons b before ih =>
      cases h with
      | done => cases hmessages
      | take hline hrest =>
        obtain ⟨rfl, htail⟩ := List.cons.inj hmessages
        obtain ⟨-, -, hbs, -⟩ := nextLine_eq_some hline
        obtain ⟨line, rest', hm, hinput, hfirst⟩ := ih hrest htail
        exact ⟨line, rest', hm, by rw [hbs, hinput, List.flatten_cons, List.append_assoc], hfirst⟩
  · induction h with
    | done xs => exact fun x y hxy => absurd hxy (nextLine_eq_none hdone x y)
    | @take xs ys rest m ms hline _ ih =>
      intro x y hxy
      obtain ⟨line, rfl, hbs, hfirst⟩ := nextLine_eq_some hline
      have hle := hfirst x y hxy
      rw [List.flatten_cons, List.length_append]
      by_cases hin : x.length ≤ line.length
      · have hcrlf : (line ++ crlf).length = line.length + 2 := List.length_append
        omega
      · -- not astride the end of the line, so behind it
        have hsplit := hxy.symm.trans hbs
        have hbehind : (line ++ crlf).length ≤ x.length := by
          by_contra hlt
          have hpos : x.length = line.length + 1 := by
            rw [List.length_append] at hlt
            simp only [crlf, List.length_cons, List.length_nil] at hlt
            omega
          have hbyte := congrArg (·[x.length]?) hsplit
          simp [hpos, crlf] at hbyte
        obtain ⟨x', rfl⟩ := List.prefix_of_prefix_length_le ⟨ys, hsplit.symm⟩
          (List.prefix_append x (crlf ++ y)) hbehind
        rw [List.append_assoc, List.append_cancel_left_eq] at hsplit
        have hrest := ih hdone x' y hsplit.symm
        rw [List.length_append]
        omega

/-! ### Any order of pieces and attempts -/

/-- The non-empty messages of a sequence of calls on a fresh parser. -/
def messagesOf (ops : List (Receive UInt8)) : List Bytes :=
  (runOps RespParser.receive ops {}).1.filter (· ≠ [])

/-- `get_next_message` has nothing left to return. -/
def Drained (ops : List (Receive UInt8)) : Prop :=
  (runOps RespParser.receive ops {}).2.getNextMessage.1 = []

theorem drained_iff {ops : List (Receive UInt8)} :
    Drained ops ↔ nextLine (runOps RespParser.receive ops {}).2.unread = none := by
  rw [Drained, RespParser.getNextMessage_eq]
  cases hline : nextLine (runOps RespParser.receive ops {}).2.unread with
  | none => exact iff_of_true rfl rfl
  | some x =>
    obtain ⟨m, rest⟩ := x
    obtain ⟨line, hm, -, -⟩ := nextLine_eq_some hline
    refine iff_of_false (fun h => ?_) (Option.some_ne_none _)
    rw [show m = [] from h] at hm
    simp [crlf] at hm

theorem takes_messagesOf (ops : List (Receive UInt8)) :
    Takes nextLine (received ops) (messagesOf ops) (runOps RespParser.receive ops {}).2.unread := by
  have htakes := takes_runOps RespParser.implements_nextLine stable_nextLine ops
    (show RespParser.Valid {} from le_refl 0)
  have hfilter : ∀ replies : List Bytes,
      replies.filterMap RespParser.message = replies.filter (· ≠ []) := by
    intro replies
    rw [← List.filterMap_eq_filter]
    refine List.filterMap_congr fun reply _ => ?_
    by_cases hnil : reply = []
    · rw [hnil]
      rfl
    · simp [RespParser.message, Option.guard, hnil]
  rw [hfilter] at htakes
  exact htakes

/-- Over every sequence of `append` and `get_next_message` on a fresh parser: asked often enough it is
drained; and once it is, its messages are the lines of what arrived, up to the last CR LF, and those of
every other drained sequence by which the same bytes arrived. -/
theorem splitter_lossless (ops : List (Receive UInt8)) :
    (∀ k, (received ops).length ≤ k → Drained (ops ++ List.replicate k .next)) ∧
    (Drained ops → Lines (received ops) (messagesOf ops) ∧
      ∀ ops', received ops' = received ops → Drained ops' → messagesOf ops' = messagesOf ops) := by
  refine ⟨fun k hk => ?_, fun hdrained => ⟨?_, fun ops' hsame hdrained' => ?_⟩⟩
  · have hflat := flatten_of_takes (takes_messagesOf ops)
    have hunread := congrArg List.length hflat
    rw [List.length_append] at hunread
    rw [drained_iff, runOps_append]
    exact next_replicate RespParser.implements_nextLine (fun _ _ _ => length_lt_of_nextLine)
      (RespParser.valid_runOps ops) (by omega)
  · exact lines_of_takes (takes_messagesOf ops) (drained_iff.mp hdrained)
  · have htakes := takes_messagesOf ops'
    rw [hsame] at htakes
    exact (htakes.unique (drained_iff.mp hdrained') (takes_messagesOf ops)
      (drained_iff.mp hdrained)).1

end Client

end MinimalRedis
