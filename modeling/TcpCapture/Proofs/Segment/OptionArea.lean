import Mathlib.Data.List.Induction
import TcpCapture.Proofs.Multipath.WireFormat
import TcpCapture.Segment.Options

/-!
# The option area, laid out and read back

Options stand one after the other in the header of a segment, with fillers between them.  They are read back
as they were laid out, up to the first thing that cannot be an option.

## Main definitions

* `HeaderOption` — an option or a filler; `HeaderOption.layout`, some of them in a row
* `AreaEnd` — what may follow: nothing, an END option, or something cut off
* `TcpOptions.said` — what some options say together
* `TcpOptions.scan?` — the decoder with an index into the area, which fails where it would read outside of it
* `TcpOptions.decode_layout` — options are read back, and no area is read outside of its bounds

**The last one counts.**  Of several options of a kind the last one is in force, whatever stands between
them; multipath options add up.
-/

namespace TcpCapture

open BigEndian (toBytes)

/-- An option of a header, or a filler. -/
inductive HeaderOption where
  | noOperation
  | segmentSize (value : UInt16)
  | windowScale (shift : UInt8)
  | sackPermitted
  /-- As many blocks as the length byte has room for. -/
  | sack (blocks : List SackBlock) (fits : blocks.length ≤ 31)
  | timestamps (value echo : BitVec 32)
  | multipath (option : WireOption)

namespace SackBlock

/-- Both ends of a block. -/
def bytes (block : SackBlock) : List UInt8 := toBytes 4 block.left.toNat ++ toBytes 4 block.right.toNat

theorem length_flatMap_bytes (blocks : List SackBlock) :
    (blocks.flatMap bytes).length = 8 * blocks.length := by
  induction blocks with
  | nil => rfl
  | cons block rest ih =>
      simp only [List.flatMap_cons, List.length_append, List.length_cons, bytes,
        BigEndian.length_toBytes, ih]
      omega

end SackBlock

/-- The kind of an option, its length byte, and its body. -/
def RawOption.bytes (raw : RawOption) : List UInt8 :=
  raw.kind :: .ofNat (raw.body.length + 2) :: raw.body

namespace HeaderOption

/-- The kind and the body of an option; a filler has neither length nor body. -/
def raw? : HeaderOption → Option RawOption
  | noOperation => none
  | segmentSize value => some ⟨2, shortBytes value⟩
  | windowScale shift => some ⟨3, [shift]⟩
  | sackPermitted => some ⟨4, []⟩
  | sack blocks _ => some ⟨5, blocks.flatMap SackBlock.bytes⟩
  | timestamps value echo => some ⟨8, toBytes 4 value.toNat ++ toBytes 4 echo.toNat⟩
  | multipath option => some ⟨30, option.body⟩

/-- The option as it stands in the area. -/
def bytes (o : HeaderOption) : List UInt8 := (o.raw?.map (·.bytes)).getD [1]

/-- Some options in a row. -/
def layout (options : List HeaderOption) : List UInt8 := options.flatMap bytes

/-- The segment size that an option announces. -/
def segmentSize? : HeaderOption → Option UInt16
  | segmentSize value => some value
  | _ => none

/-- The window shift that an option offers. -/
def windowScale? : HeaderOption → Option UInt8
  | windowScale shift => some shift
  | _ => none

/-- The option allows selective acknowledgments. -/
def permitsSack : HeaderOption → Bool
  | sackPermitted => true
  | _ => false

/-- The blocks that an option acknowledges. -/
def sack? : HeaderOption → Option (List SackBlock)
  | sack blocks _ => some blocks
  | _ => none

/-- The timestamp of an option, and the one it echoes. -/
def timestamps? : HeaderOption → Option (BitVec 32 × BitVec 32)
  | timestamps value echo => some (value, echo)
  | _ => none

/-- The multipath option that an option holds. -/
def multipath? : HeaderOption → Option MultipathOption
  | multipath option => some option.value
  | _ => none

end HeaderOption

/-- What may follow the options of an area. -/
inductive AreaEnd where
  | nothing
  /-- The END option, and anything behind it. -/
  | endOfList (rest : List UInt8)
  /-- An option whose length byte is missing. -/
  | bare (kind : UInt8)
  /-- An option whose length byte is too small, or points past the area. -/
  | cut (kind len : UInt8) (rest : List UInt8) (ne_end : kind ≠ 0) (ne_filler : kind ≠ 1)
      (bad : len.toNat < 2 ∨ rest.length + 2 < len.toNat)

namespace AreaEnd

/-- The bytes behind the last option. -/
def bytes : AreaEnd → List UInt8
  | nothing => []
  | endOfList rest => 0 :: rest
  | bare kind => [kind]
  | cut kind len rest _ _ _ => kind :: len :: rest

end AreaEnd

/-! ### Cutting -/

namespace RawOption

theorem split_end (rest : List UInt8) : split (0 :: rest) = [] := by
  cases rest with
  | nil => rw [split]
  | cons len rest => rw [split, if_pos rfl]

theorem split_filler (rest : List UInt8) : split (1 :: rest) = split rest := by
  cases rest with
  | nil => rw [split, split]
  | cons len rest => rw [split, if_neg (by decide), if_pos rfl]

theorem split_cons {kind : UInt8} (ne_end : kind ≠ 0) (ne_filler : kind ≠ 1) (len : UInt8)
    (rest : List UInt8) :
    split (kind :: len :: rest) =
      if len.toNat < 2 ∨ rest.length + 2 < len.toNat then []
      else ⟨kind, rest.take (len.toNat - 2)⟩ :: split (rest.drop (len.toNat - 2)) := by
  rw [split, if_neg ne_end, if_neg ne_filler]

/-- An option with a length byte is cut off the front of any area. -/
theorem split_bytes_append {raw : RawOption} (ne_end : raw.kind ≠ 0) (ne_filler : raw.kind ≠ 1)
    (fits : raw.body.length ≤ 253) (rest : List UInt8) :
    split (raw.bytes ++ rest) = raw :: split rest := by
  have len : (UInt8.ofNat (raw.body.length + 2)).toNat = raw.body.length + 2 := by
    rw [UInt8.toNat_ofNat']
    exact Nat.mod_eq_of_lt (by omega)
  have room : ¬ ((UInt8.ofNat (raw.body.length + 2)).toNat < 2 ∨
      (raw.body ++ rest).length + 2 < (UInt8.ofNat (raw.body.length + 2)).toNat) := by
    rw [len, List.length_append]
    omega
  rw [bytes, List.cons_append, List.cons_append, split_cons ne_end ne_filler, if_neg room, len,
    Nat.add_sub_cancel, List.take_left, List.drop_left]

theorem split_areaEnd (ending : AreaEnd) : split ending.bytes = [] := by
  cases ending with
  | nothing => exact split.eq_1
  | endOfList rest => exact split_end rest
  | bare kind => rw [AreaEnd.bytes, split]
  | cut kind len rest ne_end ne_filler bad =>
      rw [AreaEnd.bytes, split_cons ne_end ne_filler, if_pos bad]

/-- Every option that is not a filler has a length byte, and its body leaves room for that. -/
theorem wellFormed_raw? {o : HeaderOption} {raw : RawOption} (h : o.raw? = some raw) :
    raw.kind ≠ 0 ∧ raw.kind ≠ 1 ∧ raw.body.length ≤ 253 := by
  have kinds (kind : UInt8) (body : List UInt8) (fits : body.length ≤ 253)
      (ne : kind ≠ 0 ∧ kind ≠ 1) (same : some ⟨kind, body⟩ = some raw) :
      raw.kind ≠ 0 ∧ raw.kind ≠ 1 ∧ raw.body.length ≤ 253 := by
    obtain rfl := Option.some.inj same
    exact ⟨ne.1, ne.2, fits⟩
  cases o with
  | noOperation => cases h
  | sack blocks fits =>
      have len := SackBlock.length_flatMap_bytes blocks
      exact kinds 5 _ (by omega) (by decide) h
  | multipath option => exact kinds 30 _ option.length_body_le (by decide) h
  | _ => exact kinds _ _ (by simp [shortBytes]) (by decide) h

/-- **An area is cut into the options it was laid out from.** -/
theorem split_layout (options : List HeaderOption) (ending : AreaEnd) :
    split (HeaderOption.layout options ++ ending.bytes) = options.filterMap (·.raw?) := by
  induction options with
  | nil => exact split_areaEnd ending
  | cons o rest ih =>
      rw [HeaderOption.layout, List.flatMap_cons, List.append_assoc, List.filterMap_cons, ← ih]
      cases h : o.raw? with
      | none =>
          rw [HeaderOption.bytes, h]
          exact split_filler _
      | some raw =>
          obtain ⟨ne_end, ne_filler, fits⟩ := wellFormed_raw? h
          rw [HeaderOption.bytes, h]
          exact split_bytes_append ne_end ne_filler fits _

/-- A segment size, a filler, a window shift and one SACK block. -/
example : HeaderOption.layout
    [.segmentSize 1460, .noOperation, .windowScale 7, .sack [⟨100, 200⟩] (by decide)] =
      [2, 4, 0x05, 0xb4, 1, 3, 3, 7, 5, 10, 0, 0, 0, 100, 0, 0, 0, 200] := by decide

end RawOption

/-! ### What the options say -/

namespace TcpOptions

/-- What some options say together: the last one of each kind counts, and all multipath options. -/
def said (options : List HeaderOption) : TcpOptions where
  mss := (options.filterMap (·.segmentSize?)).getLast?
  windowScale := (options.filterMap (·.windowScale?)).getLast?.map (min · maxWindowShift)
  sackPermitted := options.any (·.permitsSack)
  sack := .ofList ((options.filterMap (·.sack?)).getLast?.getD [])
  tsVal := (options.filterMap (·.timestamps?)).getLast?.map (·.1)
  tsEcr := (options.filterMap (·.timestamps?)).getLast?.map (·.2)
  multipath := options.filterMap (·.multipath?)

theorem ofBytes_toBytes_toNat {w n : Nat} (width : w = 8 * n) (v : BitVec w) :
    BitVec.ofNat w (BigEndian.ofBytes (toBytes n v.toNat)) = v := by
  rw [BigEndian.ofBytes_toBytes, BigEndian.capacity_eq, ← width, Nat.mod_eq_of_lt v.isLt,
    BitVec.ofNat_toNat, BitVec.setWidth_eq]

theorem sackBlocks_flatMap (blocks : List SackBlock) :
    sackBlocks (blocks.flatMap SackBlock.bytes) = blocks := by
  induction blocks with
  | nil =>
      rw [sackBlocks]
      rfl
  | cons block rest ih =>
      have left := BigEndian.length_toBytes 4 block.left.toNat
      have right := BigEndian.length_toBytes 4 block.right.toNat
      have whole : block.bytes.length = 8 := by rw [SackBlock.bytes, List.length_append, left, right]
      have front : (block.bytes ++ rest.flatMap SackBlock.bytes).take 4 = toBytes 4 block.left.toNat := by
        rw [SackBlock.bytes, List.append_assoc, List.take_left' left]
      have back : ((block.bytes ++ rest.flatMap SackBlock.bytes).drop 4).take 4 =
          toBytes 4 block.right.toNat := by
        rw [SackBlock.bytes, List.append_assoc, List.drop_left' left, List.take_left' right]
      rw [List.flatMap_cons, sackBlocks, if_pos (by rw [List.length_append]; omega), front, back,
        List.drop_left' whole, ih,
        ofBytes_toBytes_toNat (n := 4) rfl, ofBytes_toBytes_toNat (n := 4) rfl]

variable (o : TcpOptions)

theorem apply_segmentSize (value : UInt16) :
    o.apply ⟨2, shortBytes value⟩ = { o with mss := some value } := by
  have read : Read.value? (Read.uint 2) (shortBytes value) = some value.toNat :=
    Read.value?_of_eq (Read.uint_toBytes (n := 2) rfl value.toBitVec)
  unfold apply
  dsimp only
  rw [read]
  exact congrArg (fun mss => { o with mss := some mss }) UInt16.ofNat_toNat

theorem apply_timestamps (value echo : BitVec 32) :
    o.apply ⟨8, toBytes 4 value.toNat ++ toBytes 4 echo.toNat⟩ =
      { o with tsVal := some value, tsEcr := some echo } := by
  have read : Read.value? readTimestamps (toBytes 4 value.toNat ++ toBytes 4 echo.toNat) =
      some (some value.toNat, some echo.toNat) := by
    rw [readTimestamps,
      Read.value?_bind_of_eq (Read.optional_of_eq (Read.uint_append (n := 4) rfl value _)),
      Read.value?_bind_of_eq (Read.optional_of_eq (Read.uint_toBytes (n := 4) rfl echo))]
    rfl
  have kept : ∀ v : BitVec 32, BitVec.ofNat 32 v.toNat = v := fun v => by
    rw [BitVec.ofNat_toNat, BitVec.setWidth_eq]
  unfold apply
  dsimp only
  rw [read]
  exact congrArg₂ (fun value echo => { o with tsVal := some value, tsEcr := some echo }) (kept value)
    (kept echo)

theorem apply_multipath (option : WireOption) :
    o.apply ⟨30, option.body⟩ = { o with multipath := o.multipath ++ [option.value] } := by
  unfold apply
  dsimp only
  rw [option.decode_body]
  rfl

theorem getLast?_filterMap_concat {α β : Type} (f : α → Option β) (l : List α) (a : α) :
    ((l ++ [a]).filterMap f).getLast? = (f a).or (l.filterMap f).getLast? := by
  rw [List.filterMap_append, List.getLast?_append]
  cases h : f a <;> simp [h]

/-- One option more replaces what was said of its kind, or adds to it. -/
theorem said_concat_eq (options : List HeaderOption) (o : HeaderOption) :
    said (options ++ [o]) = {
      mss := o.segmentSize?.or (said options).mss
      windowScale := (o.windowScale?.map (min · maxWindowShift)).or (said options).windowScale
      sackPermitted := o.permitsSack || (said options).sackPermitted
      sack := (o.sack?.map .ofList).getD (said options).sack
      tsVal := (o.timestamps?.map (·.1)).or (said options).tsVal
      tsEcr := (o.timestamps?.map (·.2)).or (said options).tsEcr
      multipath := (o.multipath?.map fun option => (said options).multipath ++ [option]).getD
        (said options).multipath } := by
  have permits : (options ++ [o]).any (·.permitsSack) =
      (o.permitsSack || options.any (·.permitsSack)) := by
    rw [List.any_append, Bool.or_comm, List.any_cons, List.any_nil, Bool.or_false]
  have multipath : (options ++ [o]).filterMap (·.multipath?) =
      (o.multipath?.map fun option => options.filterMap (·.multipath?) ++ [option]).getD
        (options.filterMap (·.multipath?)) := by
    rw [List.filterMap_append]
    cases h : o.multipath? <;> simp [h]
  have sack : SackBlocks.ofList ((o.sack?.or (options.filterMap (·.sack?)).getLast?).getD []) =
      (o.sack?.map SackBlocks.ofList).getD
        (.ofList ((options.filterMap (·.sack?)).getLast?.getD [])) := by
    cases o.sack? <;> rfl
  simp only [said, getLast?_filterMap_concat, Option.map_or, permits, multipath, sack]

/-- One option more is applied to what was said before; a filler says nothing. -/
theorem said_concat (options : List HeaderOption) (o : HeaderOption) :
    said (options ++ [o]) = (o.raw?.map (said options).apply).getD (said options) := by
  rw [said_concat_eq]
  cases o with
  | noOperation => rfl
  | segmentSize value => exact ((said options).apply_segmentSize value).symm
  | windowScale shift => rfl
  | sackPermitted => rfl
  | sack blocks fits =>
      show _ = { said options with sack := .ofList (sackBlocks (blocks.flatMap SackBlock.bytes)) }
      rw [sackBlocks_flatMap]
      rfl
  | timestamps value echo => exact ((said options).apply_timestamps value echo).symm
  | multipath option => exact ((said options).apply_multipath option).symm

theorem foldl_apply_raw? (options : List HeaderOption) :
    (options.filterMap (·.raw?)).foldl apply {} = said options := by
  induction options using List.reverseRecOn with
  | nil => rfl
  | append_singleton options o ih =>
      rw [said_concat, List.filterMap_append, List.foldl_append, ih]
      cases h : o.raw? with
      | none => simp [h]
      | some raw => simp [h]

/-! ### Reading by index -/

/-- The bytes from `start` up to `stop`, if they lie in the area. -/
def slice? (area : List UInt8) (start stop : Nat) : Option (List UInt8) :=
  if start ≤ stop ∧ stop ≤ area.length then some ((area.take stop).drop start) else none

/-- Adds what one option says, and takes the fields that have a fixed place by their index. -/
def applyAt? (o : TcpOptions) (kind : UInt8) (body : List UInt8) : Option TcpOptions :=
  match kind.toNat with
  | 2 =>
    if 2 ≤ body.length then do
      let high ← body[0]?
      let low ← body[1]?
      return { o with mss := some (.ofNat (256 * high.toNat + low.toNat)) }
    else return o
  | 3 =>
    if 0 < body.length then do
      let shift ← body[0]?
      return { o with windowScale := some (min shift maxWindowShift) }
    else return o
  | _ => return o.apply ⟨kind, body⟩

/-- Decodes an area from an index on, as far as `o` has got.  It fails where it would read outside of
the area, or outside of the body of an option. -/
def scan? (area : List UInt8) (i : Nat) (o : TcpOptions) : Option TcpOptions :=
  if _inside : i < area.length then do
    let kind ← area[i]?
    if kind = 0 then return o
    else if kind = 1 then scan? area (i + 1) o
    else if area.length < i + 2 then return o
    else do
      let len ← area[i + 1]?
      if _short : len.toNat < 2 ∨ area.length < i + len.toNat then return o
      else do
        let body ← slice? area (i + 2) (i + len.toNat)
        let o ← o.applyAt? kind body
        scan? area (i + len.toNat) o
  else return o
termination_by area.length - i
decreasing_by all_goals omega

/-- The guards keep the indices into one option in bounds. -/
theorem applyAt?_eq (kind : UInt8) (body : List UInt8) :
    o.applyAt? kind body = some (o.apply ⟨kind, body⟩) := by
  unfold applyAt? apply
  dsimp only
  split
  · rename_i isTwo
    rw [isTwo]
    rcases body with - | ⟨high, - | ⟨low, rest⟩⟩
    · rfl
    · rfl
    · have read : Read.value? (Read.uint 2) (high :: low :: rest) =
          some (256 * high.toNat + low.toNat) := by
        have two : Read.bytes 2 ⟨high :: low :: rest⟩ = some ([high, low], ⟨rest⟩) :=
          Read.bytes_append [high, low] rest
        rw [Read.uint, Read.value?_bind_of_eq two]
        show some (256 * (256 * 0 + high.toNat) + low.toNat) = _
        rw [Nat.mul_zero, Nat.zero_add]
      dsimp only
      rw [read]
      rfl
  · rename_i isThree
    rw [isThree]
    cases body <;> rfl
  · rfl

/-- A slice inside of the area is what cutting takes. -/
theorem slice?_eq {area : List UInt8} {start stop : Nat} (ordered : start ≤ stop)
    (inside : stop ≤ area.length) :
    slice? area start stop = some ((area.drop start).take (stop - start)) := by
  rw [slice?, if_pos ⟨ordered, inside⟩, List.drop_take]

/-- **No area is read outside of its bounds**: the decoder with an index does what cutting does. -/
theorem scan?_eq (area : List UInt8) (i : Nat) (o : TcpOptions) :
    scan? area i o = some ((RawOption.split (area.drop i)).foldl apply o) := by
  induction left : area.length - i using Nat.strongRecOn generalizing i o with
  | ind left ih =>
      rw [scan?]
      split
      · rename_i inside
        rw [List.getElem?_eq_getElem inside, List.drop_eq_getElem_cons inside]
        generalize area[i] = kind
        simp only [Option.bind_eq_bind, Option.bind_some]
        by_cases isEnd : kind = 0
        · rw [if_pos isEnd, isEnd, RawOption.split_end]
          rfl
        · rw [if_neg isEnd]
          by_cases isFiller : kind = 1
          · rw [if_pos isFiller, isFiller, RawOption.split_filler]
            exact ih (area.length - (i + 1)) (by omega) (i + 1) o rfl
          · rw [if_neg isFiller]
            by_cases alone : area.length < i + 2
            · rw [if_pos alone, List.drop_eq_nil_of_le (by omega), RawOption.split]
              rfl
            · have next : i + 1 < area.length := by omega
              rw [if_neg alone, List.getElem?_eq_getElem next, List.drop_eq_getElem_cons next,
                Option.bind_some]
              generalize area[i + 1] = len
              rw [RawOption.split_cons isEnd isFiller, List.length_drop]
              by_cases bad : len.toNat < 2 ∨ area.length < i + len.toNat
              · rw [dif_pos bad, if_pos (by omega)]
                rfl
              · have step := ih (area.length - (i + len.toNat)) (by omega) (i + len.toNat)
                  (o.apply ⟨kind, (area.drop (i + 2)).take (len.toNat - 2)⟩) rfl
                have body : i + len.toNat - (i + 2) = len.toNat - 2 := by omega
                have behind : i + 2 + (len.toNat - 2) = i + len.toNat := by omega
                rw [dif_neg bad, if_neg (by omega), slice?_eq (by omega) (by omega), Option.bind_some,
                  applyAt?_eq, Option.bind_some, body, step, List.foldl_cons, List.drop_drop, behind]
      · rename_i outside
        rw [List.drop_eq_nil_of_le (Nat.not_lt.1 outside), RawOption.split]
        rfl

/-- **Decoding undoes the layout**: whatever options an area is laid out from, and however it ends, they are
read back with the values they were given.  And no area at all is read outside of its bounds. -/
theorem decode_layout (options : List HeaderOption) (ending : AreaEnd) :
    decode (HeaderOption.layout options ++ ending.bytes) = said options ∧
      ∀ area, scan? area 0 {} = some (decode area) := by
  constructor
  · rw [decode, RawOption.split_layout, foldl_apply_raw?]
  · intro area
    rw [scan?_eq, List.drop_zero]
    rfl

end TcpOptions

end TcpCapture
