import Mathlib.Data.List.Induction
import TcpCapture.Proofs.Segment.OptionArea

/-!
# What follows in an option area

Options that stand whole at the front of an area are decoded, whatever bytes follow them.  What they say may
be said anew further on, but a malformed option says nothing, so that it should take nothing back.  Timestamps
are the exception.

## Main definitions

* `RawOption.Complete` — options and fillers in a row, each of them whole
* `TcpOptions.Retains`, `TcpOptions.Keeps` — nothing that was said is lost, timestamps aside or not
* `RawOption.lastTimestamps?` — the timestamp option that is in force
* `TcpOptions.TimestampsHold` — that one is long enough
* `TcpOptions.keeps_decode_iff` — nothing is lost exactly if it is

**Timestamps are read one by one.**  A timestamp option is applied however short its body is, and clears
what the body has no room for.  All other options of a kind are either read or passed over.
-/

namespace TcpCapture

/-! ### Options that stand whole -/

namespace RawOption

/-- Options and fillers in a row, all of them whole, and no END option among them. -/
inductive Complete : List UInt8 → Prop where
  | nil : Complete []
  | filler {rest : List UInt8} : Complete rest → Complete (1 :: rest)
  | option {raw : RawOption} {rest : List UInt8} (ne_end : raw.kind ≠ 0) (ne_filler : raw.kind ≠ 1)
      (fits : raw.body.length ≤ 253) : Complete rest → Complete (raw.bytes ++ rest)

/-- What is laid out from options is complete. -/
theorem complete_layout (options : List HeaderOption) : Complete (HeaderOption.layout options) := by
  induction options with
  | nil => exact .nil
  | cons o rest ih =>
      rw [HeaderOption.layout, List.flatMap_cons, HeaderOption.bytes]
      cases h : o.raw? with
      | none => exact .filler ih
      | some raw =>
          obtain ⟨ne_end, ne_filler, fits⟩ := wellFormed_raw? h
          exact .option ne_end ne_filler fits ih

/-- **Options that stand whole are cut off first**, whatever follows them. -/
theorem Complete.split_append {area : List UInt8} (complete : Complete area) (rest : List UInt8) :
    split (area ++ rest) = split area ++ split rest := by
  induction complete with
  | nil => rw [split.eq_1, List.nil_append, List.nil_append]
  | filler _ ih => rw [List.cons_append, split_filler, split_filler, ih]
  | option ne_end ne_filler fits _ ih =>
      rw [List.append_assoc, split_bytes_append ne_end ne_filler fits,
        split_bytes_append ne_end ne_filler fits, ih, List.cons_append]

/-- The last timestamp option of some. -/
def lastTimestamps? (raws : List RawOption) : Option RawOption :=
  (raws.filter (·.kind == 8)).getLast?

theorem lastTimestamps?_concat (raws : List RawOption) (raw : RawOption) :
    lastTimestamps? (raws ++ [raw]) = if raw.kind = 8 then some raw else lastTimestamps? raws := by
  unfold lastTimestamps?
  rw [List.filter_append]
  by_cases own : raw.kind = 8
  · have kept : [raw].filter (·.kind == 8) = [raw] := List.filter_cons_of_pos (beq_iff_eq.2 own)
    rw [kept, List.getLast?_concat, if_pos own]
  · have dropped : [raw].filter (·.kind == 8) = [] := List.filter_cons_of_neg (mt beq_iff_eq.1 own)
    rw [dropped, List.append_nil, if_neg own]

end RawOption

/-! ### Reading what may be cut short -/

namespace Read

/-- A number is read where there are as many bytes as it has. -/
theorem uint_of_le {n : Nat} {field : List UInt8} (enough : n ≤ field.length) :
    uint n ⟨field⟩ = some (BigEndian.ofBytes (field.take n), ⟨field.drop n⟩) := by
  have front : bytes n ⟨field⟩ = some (field.take n, ⟨field.drop n⟩) := if_pos enough
  exact bind_of_eq front _

theorem uint_of_lt {n : Nat} {field : List UInt8} (short : field.length < n) :
    uint n ⟨field⟩ = none := by
  have front : bytes n ⟨field⟩ = none := (bytes_eq_none_iff n _).2 short
  show (bytes n ⟨field⟩).bind _ = none
  rw [front, Option.bind_none]

end Read

namespace TcpOptions

open RawOption (lastTimestamps?)

/-- Nothing but a timestamp is lost: what was said is still said, if with another value, and multipath options
stay the first ones. -/
structure Retains (o o' : TcpOptions) : Prop where
  mss : o.mss.isSome → o'.mss.isSome
  windowScale : o.windowScale.isSome → o'.windowScale.isSome
  sackPermitted : o.sackPermitted = true → o'.sackPermitted = true
  multipath : o.multipath <+: o'.multipath

/-- Nothing is lost. -/
structure Keeps (o o' : TcpOptions) : Prop extends o.Retains o' where
  tsVal : o.tsVal.isSome → o'.tsVal.isSome
  tsEcr : o.tsEcr.isSome → o'.tsEcr.isSome

/-- The last timestamp option of some, if there is one, has room for the timestamps known before. -/
def TimestampsHold (o : TcpOptions) (raws : List RawOption) : Prop :=
  ∀ raw, lastTimestamps? raws = some raw →
    (o.tsVal.isSome → 4 ≤ raw.body.length) ∧ (o.tsEcr.isSome → 8 ≤ raw.body.length)

theorem Retains.refl (o : TcpOptions) : o.Retains o := ⟨id, id, id, List.prefix_refl _⟩

theorem Retains.trans {o o' o'' : TcpOptions} (h : o.Retains o') (h' : o'.Retains o'') :
    o.Retains o'' where
  mss := h'.mss ∘ h.mss
  windowScale := h'.windowScale ∘ h.windowScale
  sackPermitted := h'.sackPermitted ∘ h.sackPermitted
  multipath := h.multipath.trans h'.multipath

variable (o : TcpOptions)

/-- **One option** of whatever kind and length. -/
theorem retains_apply (raw : RawOption) : o.Retains (o.apply raw) := by
  unfold apply
  split
  · split
    · exact { Retains.refl o with mss := fun _ => rfl }
    · exact .refl o
  · split
    · exact { Retains.refl o with windowScale := fun _ => rfl }
    · exact .refl o
  · exact { Retains.refl o with sackPermitted := fun _ => rfl }
  · exact { Retains.refl o with }
  · split
    · exact { Retains.refl o with }
    · exact .refl o
  · split
    · exact { Retains.refl o with multipath := List.prefix_append _ _ }
    · exact .refl o
  · exact .refl o

/-- Timestamps are read as far as the body goes. -/
theorem exists_timestamps (body : List UInt8) :
    ∃ value echo, Read.value? readTimestamps body = some (value, echo) ∧
      value.isSome = decide (4 ≤ body.length) ∧ echo.isSome = decide (8 ≤ body.length) := by
  unfold readTimestamps
  by_cases one : 4 ≤ body.length
  · rw [Read.value?_bind_of_eq (Read.optional_of_eq (Read.uint_of_le one)), decide_eq_true one]
    by_cases two : 8 ≤ body.length
    · have enough : 4 ≤ (body.drop 4).length := by
        rw [List.length_drop]
        omega
      rw [Read.value?_bind_of_eq (Read.optional_of_eq (Read.uint_of_le enough)), decide_eq_true two]
      exact ⟨_, _, rfl, rfl, rfl⟩
    · have short : (body.drop 4).length < 4 := by
        rw [List.length_drop]
        omega
      rw [Read.value?_bind_of_eq (Read.optional_of_none (Read.uint_of_lt short)), decide_eq_false two]
      exact ⟨_, _, rfl, rfl, rfl⟩
  · have none := Read.optional_of_none (Read.uint_of_lt (Nat.lt_of_not_le one))
    rw [Read.value?_bind_of_eq none, Read.value?_bind_of_eq none, decide_eq_false one,
      decide_eq_false (by omega : ¬ 8 ≤ body.length)]
    exact ⟨_, _, rfl, rfl, rfl⟩

/-- A timestamp option replaces the timestamps by what its body has room for; another one leaves them. -/
theorem timestamps_apply (raw : RawOption) :
    (raw.kind = 8 ∧ (o.apply raw).tsVal.isSome = decide (4 ≤ raw.body.length) ∧
        (o.apply raw).tsEcr.isSome = decide (8 ≤ raw.body.length)) ∨
      raw.kind ≠ 8 ∧ (o.apply raw).tsVal = o.tsVal ∧ (o.apply raw).tsEcr = o.tsEcr := by
  by_cases own : raw.kind = 8
  · obtain ⟨value, echo, read, isValue, isEcho⟩ := exists_timestamps raw.body
    refine Or.inl ⟨own, ?_⟩
    unfold apply
    rw [own]
    dsimp only [UInt8.reduceToNat]
    rw [read, ← isValue, ← isEcho]
    exact ⟨Option.isSome_map, Option.isSome_map⟩
  · refine Or.inr ⟨own, ?_⟩
    unfold apply
    split
    · split <;> exact ⟨rfl, rfl⟩
    · split <;> exact ⟨rfl, rfl⟩
    · exact ⟨rfl, rfl⟩
    · exact ⟨rfl, rfl⟩
    · rename_i eight
      exact absurd (UInt8.toNat_inj.1 eight) own
    · split <;> exact ⟨rfl, rfl⟩
    · exact ⟨rfl, rfl⟩

theorem retains_foldl (raws : List RawOption) : o.Retains (raws.foldl apply o) := by
  induction raws generalizing o with
  | nil => exact .refl o
  | cons raw rest ih => exact (o.retains_apply raw).trans (ih _)

/-- **Which timestamps are set after some options** is decided by the last timestamp option. -/
theorem timestamps_foldl (raws : List RawOption) :
    (raws.foldl apply o).tsVal.isSome =
        (lastTimestamps? raws).elim o.tsVal.isSome (fun raw => decide (4 ≤ raw.body.length)) ∧
      (raws.foldl apply o).tsEcr.isSome =
        (lastTimestamps? raws).elim o.tsEcr.isSome (fun raw => decide (8 ≤ raw.body.length)) := by
  induction raws using List.reverseRecOn with
  | nil => exact ⟨rfl, rfl⟩
  | append_singleton raws raw ih =>
      rw [List.foldl_append, RawOption.lastTimestamps?_concat]
      rcases (raws.foldl apply o).timestamps_apply raw with ⟨own, val, ecr⟩ | ⟨other, val, ecr⟩
      · rw [if_pos own]
        exact ⟨val, ecr⟩
      · rw [if_neg other, ← ih.1, ← ih.2]
        exact ⟨congrArg Option.isSome val, congrArg Option.isSome ecr⟩

/-- Further options keep everything exactly if the last timestamp option among them has room for it. -/
theorem keeps_foldl_iff (raws : List RawOption) :
    o.Keeps (raws.foldl apply o) ↔ o.TimestampsHold raws := by
  obtain ⟨val, ecr⟩ := o.timestamps_foldl raws
  constructor
  · intro keeps raw last
    rw [last] at val ecr
    refine ⟨fun known => ?_, fun known => ?_⟩
    · exact of_decide_eq_true (val.symm.trans (keeps.tsVal known))
    · exact of_decide_eq_true (ecr.symm.trans (keeps.tsEcr known))
  · intro hold
    refine { o.retains_foldl raws with tsVal := fun known => ?_, tsEcr := fun known => ?_ }
    · rw [val]
      cases last : lastTimestamps? raws with
      | none => exact known
      | some raw => exact decide_eq_true ((hold raw last).1 known)
    · rw [ecr]
      cases last : lastTimestamps? raws with
      | none => exact known
      | some raw => exact decide_eq_true ((hold raw last).2 known)

/-- What is decoded at the front of an area is where decoding the rest starts from. -/
theorem decode_append {area : List UInt8} (complete : RawOption.Complete area) (rest : List UInt8) :
    decode (area ++ rest) = (RawOption.split rest).foldl apply (decode area) := by
  rw [decode, complete.split_append, List.foldl_append, decode]

/-- **Bytes behind whole options take back timestamps at most**, and no more than the last timestamp option
among them has no room for. -/
theorem keeps_decode_iff {area : List UInt8} (complete : RawOption.Complete area)
    (rest : List UInt8) :
    (decode area).Retains (decode (area ++ rest)) ∧
      ((decode area).Keeps (decode (area ++ rest)) ↔
        (decode area).TimestampsHold (RawOption.split rest)) := by
  rw [decode_append complete]
  exact ⟨retains_foldl _ _, keeps_foldl_iff _ _⟩

/-- Options that are too short, a whole timestamp option, and one that is cut off. -/
theorem keeps_decode_malformed :
    let area := HeaderOption.layout [.segmentSize 1460, .sackPermitted, .timestamps 1 2]
    let rest := [2, 2, 3, 2, 30, 3, 0x60, 8, 10, 0, 0, 0, 3, 0, 0, 0, 4, 8, 10, 0]
    RawOption.Complete area ∧ (decode area).Keeps (decode (area ++ rest)) := by
  intro area rest
  have complete : RawOption.Complete area := RawOption.complete_layout _
  refine ⟨complete, (keeps_decode_iff complete rest).2.2 fun raw last => ?_⟩
  have whole : lastTimestamps? (RawOption.split rest) = some ⟨8, [0, 0, 0, 3, 0, 0, 0, 4]⟩ := by
    decide +kernel
  obtain rfl := Option.some.inj (whole.symm.trans last)
  exact ⟨fun _ => by decide, fun _ => by decide⟩

/-- A timestamp option without a body clears both timestamps that stand in front of it. -/
theorem not_keeps_decode : ¬ ∀ area rest, RawOption.Complete area →
    (decode area).Keeps (decode (area ++ rest)) := by
  intro all
  have keeps := all (HeaderOption.layout [.timestamps 1 2]) [8, 2] (RawOption.complete_layout _)
  exact absurd (keeps.tsVal (by decide +kernel)) (by decide +kernel)

end TcpOptions

end TcpCapture
