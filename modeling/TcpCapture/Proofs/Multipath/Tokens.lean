import Mathlib.Data.List.Basic
import TcpCapture.Proofs.Multipath.Handshake

/-!
# The index of tokens

Joining subflows name a connection by one of its tokens.  Two connections may share a token; the index
then names the one that opened first.

## Main definitions

* `MetaRegistry.IndexesTokens` — the index names the first connection that has a token
* `MetaRegistry.HasToken` — a side of a connection has a token
* `indexesTokens_correlate` — segments keep the index right
* `side_of_join` — a subflow that joins sends for the other side than the one it named

**Tokens stay.**  They are settled when a connection opens, so that only opening one touches the index.
-/

namespace TcpCapture

theorem MetaConnection.mem_tokens_iff (m : MetaConnection) (token : Token) :
    token ∈ m.tokens ↔ ∃ side, (m.flow side).token = some token := by
  unfold tokens
  rw [List.mem_filterMap]
  constructor
  · rintro ⟨own, mem, rfl⟩
    rcases List.mem_pair.1 mem with client | server
    · exact ⟨.client, client.symm⟩
    · exact ⟨.server, server.symm⟩
  · rintro ⟨side, own⟩
    refine ⟨some token, List.mem_pair.2 ?_, rfl⟩
    cases side with
    | client => exact Or.inl own.symm
    | server => exact Or.inr own.symm

theorem MetaConnection.exists_sideOfToken? {m : MetaConnection} {token : Token}
    (own : ∃ side, (m.flow side).token = some token) :
    ∃ owner, m.sideOfToken? token = some owner ∧ (m.flow owner).token = some token := by
  cases found : m.sideOfToken? token with
  | some owner => exact ⟨owner, rfl, by simpa using List.find?_some found⟩
  | none =>
      obtain ⟨side, own⟩ := own
      have missing := List.find?_eq_none.1 found side (by cases side <;> simp)
      exact absurd (beq_iff_eq.2 own) missing

namespace TokenIndex

theorem get?_register (t : TokenIndex) (token other : Token) (id : Nat) :
    (t.register token id).get? other =
      (t.get? other).or (if other = token then some id else none) := by
  unfold register
  split
  · rename_i owner known
    by_cases same : other = token
    · rw [same, known]
      rfl
    · rw [if_neg same, Option.or_none]
  · rename_i free
    unfold get? at *
    rw [List.lookup_append]
    by_cases same : other = token
    · rw [same, free, if_pos rfl, List.lookup_cons_self]
    · rw [if_neg same, List.lookup_cons, beq_eq_false_iff_ne.2 same]
      rfl

/-- Of several tokens each one that is free is given away. -/
theorem get?_foldl_register (t : TokenIndex) (tokens : List Token) (other : Token) (id : Nat) :
    (tokens.foldl (fun index token => index.register token id) t).get? other =
      (t.get? other).or (if other ∈ tokens then some id else none) := by
  induction tokens generalizing t with
  | nil => exact (Option.or_none).symm
  | cons token rest ih =>
      rw [List.foldl_cons, ih, get?_register, Option.or_assoc]
      by_cases same : other = token
      · rw [if_pos same, if_pos (List.mem_cons.2 (Or.inl same))]
        rfl
      · rw [if_neg same, Option.none_or]
        refine congrArg _ (ite_congr (propext ?_) (fun _ => rfl) fun _ => rfl)
        rw [List.mem_cons, or_iff_right same]

end TokenIndex

namespace MetaRegistry

variable (r : MetaRegistry)

/-- A side of the connection has the token. -/
def HasToken (id : Nat) (token : Token) : Prop :=
  ∃ m side, r.get? id = some m ∧ (m.flow side).token = some token

/-- The index names the first connection that has a token. -/
def IndexesTokens : Prop :=
  ∀ token, r.lookupToken token =
    (r.connections.map (·.tokens)).findIdx? (·.contains token)

theorem hasToken_iff (id : Nat) (token : Token) :
    r.HasToken id token ↔ ∃ tokens, (r.connections.map (·.tokens))[id]? = some tokens ∧
      tokens.contains token = true := by
  rw [List.getElem?_map]
  constructor
  · rintro ⟨m, side, found, own⟩
    refine ⟨m.tokens, ?_, List.contains_iff_mem.2 ((m.mem_tokens_iff token).2 ⟨side, own⟩)⟩
    rw [show r.connections[id]? = some m from found]
    rfl
  · rintro ⟨tokens, found, mem⟩
    obtain ⟨m, known, rfl⟩ := Option.map_eq_some_iff.1 found
    obtain ⟨side, own⟩ := (m.mem_tokens_iff token).1 (List.contains_iff_mem.1 mem)
    exact ⟨m, side, known, own⟩

/-- **The index names the first connection that has a token, and no other.** -/
theorem IndexesTokens.lookupToken_eq_some_iff {r : MetaRegistry} (h : r.IndexesTokens)
    (token : Token) (id : Nat) :
    r.lookupToken token = some id ↔
      r.HasToken id token ∧ ∀ earlier < id, ¬ r.HasToken earlier token := by
  rw [h token, List.findIdx?_eq_some_iff_getElem]
  constructor
  · rintro ⟨lt, mem, first⟩
    refine ⟨(r.hasToken_iff id token).2 ⟨_, List.getElem?_eq_getElem lt, mem⟩, ?_⟩
    intro earlier before own
    obtain ⟨tokens, found, mem⟩ := (r.hasToken_iff earlier token).1 own
    obtain ⟨lt', rfl⟩ := List.getElem?_eq_some_iff.1 found
    exact first earlier before mem
  · rintro ⟨own, first⟩
    obtain ⟨tokens, found, mem⟩ := (r.hasToken_iff id token).1 own
    obtain ⟨lt, rfl⟩ := List.getElem?_eq_some_iff.1 found
    refine ⟨lt, mem, fun earlier before own => first earlier before ?_⟩
    exact (r.hasToken_iff earlier token).2 ⟨_, List.getElem?_eq_getElem (Nat.lt_trans before lt), own⟩

/-- A change of one connection that keeps its tokens keeps all of them. -/
theorem map_tokens_modify (id : Nat) {f : MetaConnection → MetaConnection}
    (same : ∀ m, r.get? id = some m → (f m).origin = m.origin) :
    (r.modify id f).connections.map (·.tokens) = r.connections.map (·.tokens) := by
  refine List.ext_getElem? fun j => ?_
  rw [List.getElem?_map, List.getElem?_map]
  show ((r.modify id f).get? j).map _ = (r.get? j).map _
  by_cases here : id = j
  · subst here
    cases found : r.get? id with
    | none => rw [r.get?_modify_of_none found]
    | some m =>
        rw [r.get?_modify_same found]
        have tokens : (f m).tokens = m.tokens := (congrArg MetaConnection.tokens (same m found) :)
        exact congrArg some tokens
  · rw [r.get?_modify_of_ne here]

namespace IndexesTokens

variable {r}

theorem modify (h : r.IndexesTokens) (id : Nat) {f : MetaConnection → MetaConnection}
    (same : ∀ m, r.get? id = some m → (f m).origin = m.origin) : (r.modify id f).IndexesTokens := by
  intro token
  rw [r.map_tokens_modify id same]
  exact h token

theorem openConnection (h : r.IndexesTokens) (clientKey : Option (BitVec 64)) (answer : MpCapable) :
    (r.openConnection clientKey answer).1.IndexesTokens := by
  intro token
  unfold MetaRegistry.openConnection
  extract_lets id m
  show (m.tokens.foldl (fun index token => index.register token id) r.tokens).get? token = _
  rw [TokenIndex.get?_foldl_register, List.map_append, List.findIdx?_append, List.length_map,
    ← show r.lookupToken token = _ from h token]
  refine congrArg _ ?_
  by_cases mem : token ∈ m.tokens
  · rw [if_pos mem, List.map_singleton, List.findIdx?_cons, if_pos (List.contains_iff_mem.2 mem)]
    exact congrArg some (Nat.zero_add _).symm
  · rw [if_neg mem, List.map_singleton, List.findIdx?_cons,
      if_neg fun contains => mem (List.contains_iff_mem.1 contains)]
    rfl

end IndexesTokens

end MetaRegistry

namespace Correlation

variable {r : MetaRegistry} (link : Option SubflowLink) (p : Passage)

/-- **Segments keep the index right.** -/
theorem indexesTokens_correlate (h : r.IndexesTokens) : (correlate r link p).registry.IndexesTokens := by
  have shaken : (handshake r link p).1.IndexesTokens := by
    have shaken := shaken_handshake r link p
    generalize handshake r link p = result at shaken
    cases shaken with
    | stays link' same => exact h
    | joins id m clientDirection option plain known =>
        exact h.modify id fun m _ => m.origin_addSubflow _
    | opens l answer answers =>
        exact (h.openConnection _ _).modify r.size fun m _ => m.origin_addSubflow _
    | confirms id l echo echoes => exact h.modify id fun m _ => m.origin_confirm _
  rw [correlate_eq]
  rcases heard_cases (handshake r link p).1 (hearing r link p) p with
    ⟨same, -⟩ | ⟨s, t, id, -, -, known, hears, same, -⟩
  · rw [same]
    exact shaken
  · rw [same]
    refine shaken.modify id fun m found => ?_
    obtain rfl := Option.some.inj (known.symm.trans found)
    exact hears.origin

/-- **A subflow that joins sends for the other side than the one it named.** -/
theorem side_of_join (h : r.IndexesTokens) {option : MpJoin} {token : Token} {id : Nat}
    (syn : p.segment.flags.syn = true) (ack : p.segment.flags.ack = false)
    (capable : p.capable? = none) (join : p.join? = some option) (named : option.token = some token)
    (known : r.lookupToken token = some id) :
    ∃ m owner l, r.get? id = some m ∧ (m.flow owner).token = some token ∧
      (correlate r none p).link = some l ∧ l.metaId = some id ∧
      l.side p.direction = owner.opposite := by
  obtain ⟨⟨m, side, found, own⟩, -⟩ := (h.lookupToken_eq_some_iff token id).1 known
  obtain ⟨owner, receiver, own⟩ := MetaConnection.exists_sideOfToken? ⟨side, own⟩
  have joins : ∃ clientDirection,
      (handshake r none p).2 = some (.join (some id) clientDirection option) ∧
        (SubflowLink.join (some id) clientDirection option).side p.direction = owner.opposite := by
    unfold handshake opening joinBy
    rw [syn, ack, capable, join]
    dsimp only
    simp only [named, known, found, receiver, Option.bind_eq_bind, Option.bind_some, Option.pure_def]
    cases owner with
    | client => exact ⟨_, rfl, if_neg (by cases p.direction <;> exact nofun)⟩
    | server => exact ⟨_, rfl, if_pos rfl⟩
  obtain ⟨clientDirection, shaken, side⟩ := joins
  have hears : hearing r none p = some (.join (some id) clientDirection option) := by
    unfold hearing
    rw [shaken]
    rfl
  have part := part_heard (handshake r none p).1 (hearing r none p) p
  rw [← correlate_eq, hears] at part
  obtain ⟨l, linked, same⟩ := Option.map_eq_some_iff.1 part
  refine ⟨m, owner, l, found, own, linked, (congrArg SubflowLink.metaId same :), ?_⟩
  rw [← side]
  exact (congrArg (fun l : SubflowLink => l.side p.direction) same :)

end Correlation

end TcpCapture
