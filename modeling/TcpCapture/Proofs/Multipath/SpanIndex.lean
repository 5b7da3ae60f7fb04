import Mathlib.Data.List.Induction
import TcpCapture.Multipath.Connection
import TcpCapture.Proofs.Interval.Search

/-!
# The index of mapped data

Each side of a multipath connection records which subflow mapped which of its data bytes, so that the
origin of a byte can be looked up, and data that another subflow had mapped is noticed.

## Main definitions

* `DataMapping` — a subflow maps a stretch of data
* `MetaFlow.accepted`, `MetaFlow.recorded` — of several mappings those that were accepted, and those
  that the index holds
* `MetaFlow.FindsMapped` — every byte mapped so far is found, and every repetition by another subflow
  is noticed
* `MetaFlow.Overlooks` — a mapping brings a byte that the index will not hold, or repeats only bytes
  that it does not hold

**Passed over.**  A mapping that shares a byte with one its own subflow had recorded is not recorded,
whatever else it maps.  Bytes beyond those it repeats are lost to the index.

**Bytes, not positions.**  The index is keyed by the distance from the first number of the side.  An
accepted mapping does not run past the end of that scale, so whether two mappings share a byte can be
said in data sequence numbers alone.
-/

namespace TcpCapture

/-- A subflow maps `len` data bytes from `dsn` on. -/
structure DataMapping where
  dsn : DataSeq
  len : Nat
  span : DsnSpan
deriving DecidableEq

namespace DataMapping

/-- The data byte is among those mapped. -/
def maps (m : DataMapping) (d : DataSeq) : Bool := decide ((d - m.dsn).toNat < m.len)

/-- One of the two mappings starts in the other. -/
def meets (m n : DataMapping) : Bool := m.maps n.dsn || n.maps m.dsn

/-- Mappings that start in one another are those that share a byte. -/
theorem meets_iff {m n : DataMapping} (hm : 0 < m.len) (hn : 0 < n.len) :
    m.meets n = true ↔ ∃ d, m.maps d = true ∧ n.maps d = true := by
  simp only [meets, maps, Bool.or_eq_true, decide_eq_true_eq]
  constructor
  · rintro (inside | inside)
    · exact ⟨n.dsn, inside, by rwa [BitVec.sub_self]⟩
    · exact ⟨m.dsn, by rwa [BitVec.sub_self], inside⟩
  · rintro ⟨d, hdm, hdn⟩
    -- of the two starts, the one nearer in front of the shared byte lies in the other mapping
    rw [BitVec.toNat_sub] at hdm hdn ⊢
    rw [BitVec.toNat_sub]
    omega

end DataMapping

/-- The mappings kept once another one comes: it is passed over if it shares a byte with one of its
own subflow. -/
def remember (known : List DataMapping) (m : DataMapping) : List DataMapping :=
  if known.any fun k => k.span.stream == m.span.stream && k.meets m then known else known ++ [m]

theorem subset_remember (known : List DataMapping) (m : DataMapping) :
    known ⊆ remember known m := by
  unfold remember
  split
  · exact List.Subset.refl _
  · exact List.subset_append_left _ _

namespace MetaFlow

/-- Records a mapping, and finds the spans of other subflows that had mapped some of its bytes. -/
def map? (f : MetaFlow) (m : DataMapping) : Except CaptureError (MetaFlow × List DsnSpan) :=
  f.recordMapping? m.dsn m.len m.span

/-- The side after a mapping; a mapping that is refused leaves it alone. -/
def afterMapping (f : MetaFlow) (m : DataMapping) : MetaFlow :=
  match f.map? m with
  | .ok (g, _) => g
  | .error _ => f

/-- The side after several mappings. -/
def afterMappings (f : MetaFlow) (ms : List DataMapping) : MetaFlow := ms.foldl afterMapping f

/-- The mapping is not refused. -/
def accepts (f : MetaFlow) (m : DataMapping) : Bool := (f.map? m).isOk

/-- Of several mappings, one after the other, those that are accepted. -/
def accepted (f : MetaFlow) : List DataMapping → List DataMapping
  | [] => []
  | m :: rest => (if f.accepts m then [m] else []) ++ (f.afterMapping m).accepted rest

/-- Of several mappings those that are recorded. -/
def recorded (f : MetaFlow) (ms : List DataMapping) : List DataMapping :=
  (f.accepted ms).foldl remember []

/-- The side before anything was mapped. -/
def unmapped (f : MetaFlow) : MetaFlow := { f with spans := .nil }

/-- After each mapping that is accepted, every byte of every mapping accepted so far is found; and the
mapping is told earlier ones of other subflows exactly when it shares a byte with such a one. -/
def FindsMapped (f : MetaFlow) (ms : List DataMapping) : Prop :=
  ∀ pre m g elsewhere, pre ++ [m] <+: ms → (f.afterMappings pre).map? m = .ok (g, elsewhere) →
    (∀ k ∈ f.accepted (pre ++ [m]), ∀ d, k.maps d = true → (g.spanAt? d).isSome = true) ∧
      (elsewhere ≠ [] ↔ ∃ k ∈ f.accepted pre, k.span.stream ≠ m.span.stream ∧
        ∃ d, k.maps d = true ∧ m.maps d = true)

/-- Some byte of the mapping is in no mapping recorded by then; or the mapping shares bytes with
accepted mappings of other subflows, but with none that is recorded. -/
def Overlooks (f : MetaFlow) (pre : List DataMapping) (m : DataMapping) : Prop :=
  (∃ d, m.maps d = true ∧ ∀ k ∈ f.recorded (pre ++ [m]), k.maps d = false) ∨
    (∃ k ∈ f.accepted pre, k.span.stream ≠ m.span.stream ∧ k.meets m = true) ∧
      ∀ k ∈ f.recorded pre, k.span.stream ≠ m.span.stream → k.meets m = false

/-! ### The ranges of the index -/

/-- The range of a mapping, counted from the first number of the side. -/
def rangeOf (f : MetaFlow) (m : DataMapping) : Except CaptureError (Range 64) :=
  Range.ofLength (f.relative m.dsn) m.len

/-- What recording a mapping does, once its range is known. -/
theorem map?_of_range {f : MetaFlow} {m : DataMapping} {r : Range 64} (h : f.rangeOf m = .ok r) :
    f.map? m =
      let earlier := (f.spans.findAll r).map Prod.snd
      let elsewhere := earlier.filter (·.stream != m.span.stream)
      let repeated := earlier.any (·.stream == m.span.stream)
      let stop := advance m.dsn m.len
      .ok ({ f with
        reinjections := f.reinjections + (!elsewhere.isEmpty).toNat
        spans := if repeated then f.spans else f.spans.insert r m.span
        nextDsn := if f.nextDsn.all (after stop) then some stop else f.nextDsn }, elsewhere) := by
  unfold rangeOf at h
  unfold map? recordMapping?
  rw [h]
  rfl

theorem map?_of_error {f : MetaFlow} {m : DataMapping} {e : CaptureError}
    (h : f.rangeOf m = .error e) : f.map? m = .error e := by
  unfold rangeOf at h
  unfold map? recordMapping?
  rw [h]
  rfl

/-- A mapping is refused or accepted for its range. -/
theorem accepts_iff {f : MetaFlow} {m : DataMapping} :
    f.accepts m = true ↔ ∃ r, f.rangeOf m = .ok r := by
  unfold accepts
  cases h : f.rangeOf m with
  | error e => simp [map?_of_error h, Except.isOk, Except.toBool]
  | ok r => simp [map?_of_range h, Except.isOk, Except.toBool]

theorem rangeOf_congr {f g : MetaFlow} (base : g.baseDsn = f.baseDsn) (m : DataMapping) :
    g.rangeOf m = f.rangeOf m := by
  unfold rangeOf relative
  rw [base]

theorem relative_sub_relative (f : MetaFlow) (d e : DataSeq) :
    f.relative d - f.relative e = d - e := by
  unfold relative
  bv_omega

/-- The range of a mapping contains the positions of its bytes. -/
theorem contains_relative {f : MetaFlow} {m : DataMapping} {r : Range 64} (h : f.rangeOf m = .ok r)
    (d : DataSeq) : r.contains (f.relative d) = m.maps d := by
  rw [Range.contains_of_ofLength h, relative_sub_relative]
  rfl

/-- Ranges overlap when their mappings share a byte. -/
theorem overlaps_iff_meets {f : MetaFlow} {m n : DataMapping} {r s : Range 64}
    (hm : f.rangeOf m = .ok r) (hn : f.rangeOf n = .ok s) :
    r.overlaps s = true ↔ m.meets n = true := by
  have pos := (Range.ofLength_eq_ok hm).1
  have pos' := (Range.ofLength_eq_ok hn).1
  rw [Range.overlaps_iff_exists, DataMapping.meets_iff pos pos']
  constructor
  · rintro ⟨p, hr, hs⟩
    have hp : p = f.relative (p + f.baseDsn.getD 0) := by
      unfold relative
      bv_omega
    rw [hp] at hr hs
    exact ⟨_, contains_relative hm _ ▸ hr, contains_relative hn _ ▸ hs⟩
  · rintro ⟨d, hr, hs⟩
    exact ⟨f.relative d, (contains_relative hm d).trans hr, (contains_relative hn d).trans hs⟩

/-! ### What the index holds -/

/-- The index holds the mappings `known`, and nothing else. -/
structure Indexes (f : MetaFlow) (known : List DataMapping) : Prop where
  wellFormed : f.spans.WellFormed
  known_of_mem : ∀ x ∈ f.spans.toList, ∃ k ∈ known, f.rangeOf k = .ok x.1 ∧ k.span = x.2
  mem_of_known : ∀ k ∈ known, ∃ r, f.rangeOf k = .ok r ∧ (r, k.span) ∈ f.spans.toList

namespace Indexes

variable {f g : MetaFlow} {known : List DataMapping} {m : DataMapping} {r : Range 64}

theorem unmapped (f : MetaFlow) : f.unmapped.Indexes [] where
  wellFormed := IntervalTree.wellFormed_nil
  known_of_mem _ mem := absurd mem List.not_mem_nil
  mem_of_known _ mem := absurd mem List.not_mem_nil

/-- A byte is found exactly when a mapping held maps it. -/
theorem isSome_spanAt?_iff (h : f.Indexes known) {d : DataSeq} :
    (f.spanAt? d).isSome = true ↔ ∃ k ∈ known, k.maps d = true := by
  unfold spanAt?
  rw [h.wellFormed.isSome_findPoint?_iff]
  constructor
  · rintro ⟨x, mem, inside⟩
    obtain ⟨k, hk, range, -⟩ := h.known_of_mem x mem
    exact ⟨k, hk, (contains_relative range d).symm.trans inside⟩
  · rintro ⟨k, hk, inside⟩
    obtain ⟨r, range, mem⟩ := h.mem_of_known k hk
    exact ⟨(r, k.span), mem, (contains_relative range d).trans inside⟩

/-- A search with the range of a mapping meets the mappings held that share a byte with it. -/
theorem exists_mem_findAll_iff (h : f.Indexes known) (range : f.rangeOf m = .ok r)
    (p : DsnSpan → Prop) :
    (∃ x ∈ f.spans.findAll r, p x.2) ↔ ∃ k ∈ known, k.meets m = true ∧ p k.span := by
  constructor
  · rintro ⟨x, found, hp⟩
    obtain ⟨mem, overlap⟩ := h.wellFormed.mem_findAll.1 found
    obtain ⟨k, hk, range', span⟩ := h.known_of_mem x mem
    exact ⟨k, hk, (overlaps_iff_meets range' range).1 overlap, span.symm ▸ hp⟩
  · rintro ⟨k, hk, share, hp⟩
    obtain ⟨s, range', mem⟩ := h.mem_of_known k hk
    exact ⟨(s, k.span),
      h.wellFormed.mem_findAll.2 ⟨mem, (overlaps_iff_meets range' range).2 share⟩, hp⟩

/-- The spans a mapping is told are those of other subflows' mappings that share a byte with it. -/
theorem elsewhere_ne_nil_iff (h : f.Indexes known) {elsewhere : List DsnSpan}
    (ok : f.map? m = .ok (g, elsewhere)) :
    elsewhere ≠ [] ↔ ∃ k ∈ known, k.span.stream ≠ m.span.stream ∧ k.meets m = true := by
  cases range : f.rangeOf m with
  | error e =>
      rw [map?_of_error range] at ok
      cases ok
  | ok r =>
      rw [map?_of_range range] at ok
      obtain ⟨-, rfl⟩ := Prod.mk.inj (Except.ok.inj ok)
      have other := h.exists_mem_findAll_iff range (·.stream ≠ m.span.stream)
      have told : (∃ x ∈ f.spans.findAll r, x.2.stream ≠ m.span.stream) ↔
          ∃ k ∈ known, k.span.stream ≠ m.span.stream ∧ k.meets m = true :=
        other.trans (exists_congr fun k => and_congr_right fun _ => and_comm)
      rw [← told, ne_eq, List.filter_eq_nil_iff]
      simp only [List.forall_mem_map, bne_iff_ne, not_forall, not_not, exists_prop]

/-- Nothing but the first number of the side and the recorded spans matters. -/
theorem congr (h : f.Indexes known) (base : g.baseDsn = f.baseDsn) (spans : g.spans = f.spans) :
    g.Indexes known where
  wellFormed := spans ▸ h.wellFormed
  known_of_mem x mem := by
    obtain ⟨k, hk, range, span⟩ := h.known_of_mem x (spans ▸ mem)
    exact ⟨k, hk, (rangeOf_congr base k).trans range, span⟩
  mem_of_known k hk := by
    obtain ⟨r, range, mem⟩ := h.mem_of_known k hk
    exact ⟨r, (rangeOf_congr base k).trans range, spans ▸ mem⟩

theorem insert (h : f.Indexes known) (range : f.rangeOf m = .ok r) :
    Indexes { f with spans := f.spans.insert r m.span } (known ++ [m]) where
  wellFormed := h.wellFormed.insert r m.span
  known_of_mem x mem := by
    rcases h.wellFormed.mem_insert.1 mem with rfl | mem
    · exact ⟨m, List.mem_append_right _ List.mem_cons_self, range, rfl⟩
    · obtain ⟨k, hk, held⟩ := h.known_of_mem x mem
      exact ⟨k, List.mem_append_left _ hk, held⟩
  mem_of_known k hk := by
    rcases List.mem_append.1 hk with hk | hk
    · obtain ⟨s, held, mem⟩ := h.mem_of_known k hk
      exact ⟨s, held, h.wellFormed.mem_insert.2 (Or.inr mem)⟩
    · obtain rfl := List.mem_singleton.1 hk
      exact ⟨r, range, h.wellFormed.mem_insert.2 (Or.inl rfl)⟩

/-- Recording a mapping: it is added, unless it shares a byte with one of its own subflow. -/
theorem map (h : f.Indexes known) {elsewhere : List DsnSpan}
    (ok : f.map? m = .ok (g, elsewhere)) : g.Indexes (remember known m) := by
  cases range : f.rangeOf m with
  | error e =>
      rw [map?_of_error range] at ok
      cases ok
  | ok r =>
      have same := h.exists_mem_findAll_iff range (·.stream = m.span.stream)
      have repeats : ((f.spans.findAll r).map Prod.snd).any (·.stream == m.span.stream) =
          known.any fun k => k.span.stream == m.span.stream && k.meets m := by
        rw [Bool.eq_iff_iff, List.any_map]
        simp only [List.any_eq_true, Function.comp_apply, Bool.and_eq_true, beq_iff_eq]
        exact same.trans (exists_congr fun k => and_congr_right fun _ => and_comm)
      rw [map?_of_range range] at ok
      obtain ⟨rfl, -⟩ := Prod.mk.inj (Except.ok.inj ok)
      unfold remember
      rw [← repeats]
      cases ((f.spans.findAll r).map Prod.snd).any (·.stream == m.span.stream) with
      | true => exact h.congr rfl rfl
      | false => exact (h.insert range).congr rfl rfl

end Indexes

/-! ### Histories -/

theorem afterMapping_of_ok {f g : MetaFlow} {m : DataMapping} {elsewhere : List DsnSpan}
    (ok : f.map? m = .ok (g, elsewhere)) : f.afterMapping m = g := by
  unfold afterMapping
  rw [ok]

theorem exists_of_accepts {f : MetaFlow} {m : DataMapping} (h : f.accepts m = true) :
    ∃ g elsewhere, f.map? m = .ok (g, elsewhere) := by
  obtain ⟨r, range⟩ := accepts_iff.1 h
  exact ⟨_, _, map?_of_range range⟩

theorem accepts_of_ok {f g : MetaFlow} {m : DataMapping} {elsewhere : List DsnSpan}
    (ok : f.map? m = .ok (g, elsewhere)) : f.accepts m = true := by
  unfold accepts
  rw [ok]
  rfl

theorem afterMapping_of_refused {f : MetaFlow} {m : DataMapping} (h : f.accepts m = false) :
    f.afterMapping m = f := by
  unfold accepts at h
  unfold afterMapping
  cases ok : f.map? m with
  | error e => rfl
  | ok x =>
      rw [ok] at h
      cases h

theorem length_pos_of_accepts {f : MetaFlow} {m : DataMapping} (h : f.accepts m = true) :
    0 < m.len := by
  obtain ⟨r, range⟩ := accepts_iff.1 h
  exact (Range.ofLength_eq_ok range).1

theorem afterMappings_concat (f : MetaFlow) (ms : List DataMapping) (m : DataMapping) :
    f.afterMappings (ms ++ [m]) = (f.afterMappings ms).afterMapping m := by
  rw [afterMappings, List.foldl_append]
  rfl

theorem accepted_concat (f : MetaFlow) (ms : List DataMapping) (m : DataMapping) :
    f.accepted (ms ++ [m]) =
      f.accepted ms ++ if (f.afterMappings ms).accepts m then [m] else [] := by
  induction ms generalizing f with
  | nil => exact List.append_nil _
  | cons first rest ih =>
      show (if f.accepts first then [first] else []) ++ (f.afterMapping first).accepted (rest ++ [m]) =
        _
      rw [ih, ← List.append_assoc]
      rfl

theorem recorded_of_accepts {f : MetaFlow} {ms : List DataMapping} {m : DataMapping}
    (h : (f.afterMappings ms).accepts m = true) :
    f.recorded (ms ++ [m]) = remember (f.recorded ms) m := by
  rw [recorded, accepted_concat, if_pos h, List.foldl_append]
  rfl

theorem recorded_of_refused {f : MetaFlow} {ms : List DataMapping} {m : DataMapping}
    (h : (f.afterMappings ms).accepts m = false) : f.recorded (ms ++ [m]) = f.recorded ms := by
  rw [recorded, accepted_concat, h, if_neg Bool.false_ne_true, List.append_nil]
  rfl

theorem length_pos_of_mem_accepted {f : MetaFlow} {ms : List DataMapping} {k : DataMapping}
    (mem : k ∈ f.accepted ms) : 0 < k.len := by
  induction ms using List.reverseRecOn with
  | nil => cases mem
  | append_singleton ms m ih =>
      rw [accepted_concat] at mem
      rcases List.mem_append.1 mem with mem | mem
      · exact ih mem
      · split at mem
        · rename_i accepts
          obtain rfl := List.mem_singleton.1 mem
          exact length_pos_of_accepts accepts
        · cases mem

/-- Only accepted mappings are recorded. -/
theorem recorded_subset (f : MetaFlow) (ms : List DataMapping) : f.recorded ms ⊆ f.accepted ms := by
  have sub (known ms : List DataMapping) : ms.foldl remember known ⊆ known ++ ms := by
    induction ms generalizing known with
    | nil => exact List.subset_append_left known []
    | cons m rest ih =>
        have step : remember known m ⊆ known ++ [m] := by
          unfold remember
          split
          · exact List.subset_append_left known [m]
          · exact List.Subset.refl _
        intro k mem
        rw [List.append_cons]
        rcases List.mem_append.1 (ih (remember known m) mem) with mem | mem
        · exact List.mem_append_left _ (step mem)
        · exact List.mem_append_right _ mem
  exact sub [] (f.accepted ms)

/-- After any mappings the index holds those that are recorded, and nothing else. -/
theorem indexes_afterMappings (f : MetaFlow) (ms : List DataMapping) :
    (f.unmapped.afterMappings ms).Indexes (f.unmapped.recorded ms) := by
  induction ms using List.reverseRecOn with
  | nil => exact Indexes.unmapped f
  | append_singleton ms m ih =>
      rw [afterMappings_concat]
      cases accepts : (f.unmapped.afterMappings ms).accepts m with
      | true =>
          obtain ⟨g, elsewhere, ok⟩ := exists_of_accepts accepts
          rw [afterMapping_of_ok ok, recorded_of_accepts accepts]
          exact ih.map ok
      | false =>
          rw [afterMapping_of_refused accepts, recorded_of_refused accepts]
          exact ih

/-- A history that overlooks nothing keeps every byte mapped so far in the index. -/
theorem exists_recorded {f : MetaFlow} {ms : List DataMapping}
    (clear : ∀ pre m, pre ++ [m] <+: ms → (f.afterMappings pre).accepts m = true →
      ¬ f.Overlooks pre m)
    {pre : List DataMapping} (reached : pre <+: ms) {k : DataMapping} (mem : k ∈ f.accepted pre)
    {d : DataSeq} (mapped : k.maps d = true) : ∃ r ∈ f.recorded pre, r.maps d = true := by
  induction pre using List.reverseRecOn with
  | nil => cases mem
  | append_singleton pre m ih =>
      have earlier := ih ((List.prefix_append pre [m]).trans reached)
      rw [accepted_concat] at mem
      cases accepts : (f.afterMappings pre).accepts m with
      | true =>
          rw [accepts, if_pos rfl] at mem
          rcases List.mem_append.1 mem with mem | mem
          · obtain ⟨r, hr, inside⟩ := earlier mem
            rw [recorded_of_accepts accepts]
            exact ⟨r, subset_remember _ m hr, inside⟩
          · obtain rfl := List.mem_singleton.1 mem
            by_contra lost
            refine clear pre k reached accepts (Or.inl ⟨d, mapped, ?_⟩)
            intro r hr
            exact Bool.eq_false_iff.2 fun inside => lost ⟨r, hr, inside⟩
      | false =>
          rw [accepts, if_neg Bool.false_ne_true, List.append_nil] at mem
          rw [recorded_of_refused accepts]
          exact earlier mem

/-- **Every mapped byte is found and every repetition noticed if and only if nothing is overlooked**:
a mapping is only passed over when each of its bytes is in a recorded one, and a mapping that repeats
bytes of other subflows repeats some that are recorded for one of these. -/
theorem findsMapped_iff (f : MetaFlow) (ms : List DataMapping) :
    f.unmapped.FindsMapped ms ↔
      ∀ pre m, pre ++ [m] <+: ms → (f.unmapped.afterMappings pre).accepts m = true →
        ¬ f.unmapped.Overlooks pre m := by
  constructor
  · intro finds pre m reached accepts overlooks
    obtain ⟨g, elsewhere, ok⟩ := exists_of_accepts accepts
    obtain ⟨found, noticed⟩ := finds pre m g elsewhere reached ok
    have before := indexes_afterMappings f pre
    have after := before.map ok
    rw [← recorded_of_accepts accepts] at after
    rcases overlooks with ⟨d, mapped, lost⟩ | ⟨⟨k, mem, other, share⟩, unseen⟩
    · have last : m ∈ f.unmapped.accepted (pre ++ [m]) := by
        rw [accepted_concat, if_pos accepts]
        exact List.mem_append_right _ List.mem_cons_self
      obtain ⟨k, hk, inside⟩ := after.isSome_spanAt?_iff.1 (found m last d mapped)
      exact absurd inside (Bool.eq_false_iff.1 (lost k hk))
    · have common := (DataMapping.meets_iff (length_pos_of_mem_accepted mem)
        (length_pos_of_accepts accepts)).1 share
      obtain ⟨r, hr, other', share'⟩ :=
        (before.elsewhere_ne_nil_iff ok).1 (noticed.2 ⟨k, mem, other, common⟩)
      exact absurd share' (Bool.eq_false_iff.1 (unseen r hr other'))
  · intro clear pre m g elsewhere reached ok
    have accepts := accepts_of_ok ok
    have before := indexes_afterMappings f pre
    have after := before.map ok
    rw [← recorded_of_accepts accepts] at after
    refine ⟨?_, ?_⟩
    · intro k mem d mapped
      exact after.isSome_spanAt?_iff.2 (exists_recorded clear reached mem mapped)
    · rw [before.elsewhere_ne_nil_iff ok]
      have common {k : DataMapping} (mem : k ∈ f.unmapped.accepted pre) :=
        DataMapping.meets_iff (length_pos_of_mem_accepted mem) (length_pos_of_accepts accepts)
      constructor
      · rintro ⟨k, hk, other, share⟩
        have mem := recorded_subset _ pre hk
        exact ⟨k, mem, other, (common mem).1 share⟩
      · rintro ⟨k, mem, other, shared⟩
        by_contra unseen
        refine clear pre m reached accepts
          (Or.inr ⟨⟨k, mem, other, (common mem).2 shared⟩, ?_⟩)
        intro r hr other'
        exact Bool.eq_false_iff.2 fun share => unseen ⟨r, hr, other', share⟩

/-- A subflow maps bytes 1 to 100, then 51 to 150: the second mapping is passed over, and byte 120 is
not found. -/
theorem not_findsMapped :
    ¬ MetaFlow.FindsMapped { baseDsn := some 0 }
      [⟨1, 100, ⟨0, 4, 1⟩⟩, ⟨51, 100, ⟨0, 5, 51⟩⟩] := by
  intro finds
  obtain ⟨g, elsewhere, ok⟩ := exists_of_accepts (f := MetaFlow.afterMappings { baseDsn := some 0 }
    [⟨1, 100, ⟨0, 4, 1⟩⟩]) (m := ⟨51, 100, ⟨0, 5, 51⟩⟩) (by decide +kernel)
  have found := (finds [_] _ g elsewhere (List.prefix_refl _) ok).1 ⟨51, 100, ⟨0, 5, 51⟩⟩
    (by decide +kernel) 120 (by decide +kernel)
  rw [← afterMapping_of_ok ok] at found
  revert found
  decide +kernel

end MetaFlow

end TcpCapture
