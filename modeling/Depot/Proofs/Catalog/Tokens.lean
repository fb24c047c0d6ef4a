import Depot.Proofs.Catalog.Frame
import Mathlib.Data.List.Nodup

/-!
# What becomes of tokens

- `Token.Ages`: a token at a later time. It may have been used again, and revoked if it was not; nothing else of it
  changes, and a revocation keeps its time.
- `TokensAge`: all tokens are in their places, later. Every sequence of requests leaves them so (`tokensAge_after`).
- `TokensSound`: no two tokens share an identifier or a hash.
-/

namespace Depot.Catalog

open Time

variable {c d next : Catalog}

/-! ### Tokens grow older -/

/-- A token later on: it may have been used again, and revoked if it was not revoked before. -/
structure Token.Ages (t later : Token) : Prop where
  same : later = { t with revokedAt := later.revokedAt, lastUsedAt := later.lastUsedAt }
  revoked : ∀ time, t.revokedAt = some time → later.revokedAt = some time

theorem Token.Ages.refl (t : Token) : t.Ages t := ⟨rfl, fun _ h => h⟩

theorem Token.Ages.trans {t u w : Token} (h : t.Ages u) (hnext : u.Ages w) : t.Ages w := by
  refine ⟨?_, fun time htime => hnext.revoked time (h.revoked time htime)⟩
  rw [hnext.same, h.same]

/-- The token was revoked, or its end does not lie ahead. -/
def Token.IsOver (t : Token) (now : DateTime) : Prop :=
  t.revokedAt.isSome ∨ ∃ e, t.expiresAt = some e ∧ e.instant ≤ now.instant

theorem Token.IsOver.inactive {t later : Token} {since now : DateTime} (h : t.IsOver since) (hages : t.Ages later)
    (hclock : since.instant ≤ now.instant) : later.isActive now = false := by
  rw [isActive, Bool.and_eq_false_iff]
  rcases h with hrevoked | ⟨e, hexpires, hpast⟩
  · obtain ⟨time, htime⟩ := Option.isSome_iff_exists.mp hrevoked
    left
    rw [hages.revoked time htime]
    rfl
  · have hsame : later.expiresAt = some e := by rw [hages.same, hexpires]
    right
    rw [hsame]
    exact decide_eq_false (by omega)

/-- Every token is in its place, later. -/
def TokensAge (c next : Catalog) : Prop :=
  ∀ (i : Nat) (t : Token), c.tokens[i]? = some t → ∃ later, next.tokens[i]? = some later ∧ t.Ages later

theorem tokensAge_of_eq (h : next.tokens = c.tokens) : TokensAge c next :=
  fun _ t ht => ⟨t, h ▸ ht, .refl t⟩

theorem TokensAge.trans (h : TokensAge c d) (hnext : TokensAge d next) : TokensAge c next := by
  intro i t ht
  obtain ⟨u, hu, hages⟩ := h i t ht
  obtain ⟨w, hw, hlater⟩ := hnext i u hu
  exact ⟨w, hw, hages.trans hlater⟩

theorem TokensAge.mem (h : TokensAge c next) {t : Token} (ht : t ∈ c.tokens) :
    ∃ later ∈ next.tokens, t.Ages later := by
  obtain ⟨i, hi⟩ := List.mem_iff_getElem?.mp ht
  obtain ⟨later, hlater, hages⟩ := h i t hi
  exact ⟨later, List.mem_of_getElem? hlater, hages⟩

theorem tokensAge_withToken (c : Catalog) (token : Token) : TokensAge c (c.withToken token) := by
  intro i t ht
  refine ⟨t, ?_, .refl t⟩
  rw [tokens_withToken, List.getElem?_append_left (List.getElem?_eq_some_iff.mp ht).1, ht]

theorem tokensAge_modifyToken (c : Catalog) {tokenId : Uuid} {change : Token → Token}
    (h : ∀ t : Token, t.Ages (change t)) : TokensAge c (c.modifyToken tokenId change) := by
  intro i t ht
  refine ⟨if t.tokenId = tokenId then change t else t, ?_, ?_⟩
  · simp only [modifyToken, List.getElem?_map, ht, Option.map_some]
  · split
    · exact h t
    · exact .refl t

theorem ages_touched (usedAt : DateTime) (t : Token) : t.Ages { t with lastUsedAt := some usedAt } :=
  ⟨rfl, fun _ h => h⟩

theorem ages_revoked (revokedAt : DateTime) (t : Token) :
    t.Ages { t with revokedAt := t.revokedAt <|> some revokedAt } :=
  ⟨rfl, fun time htime => by simp [htime]⟩

/-- **No request does anything to a token but use it, or revoke it once.** -/
theorem tokensAge_answer (c : Catalog) (r : Request) : TokensAge c (c.answer r).2 := by
  have hframe := framed c r
  generalize (c.answer r).2 = next at hframe
  cases hframe with
  | tokenMade => exact tokensAge_withToken c _
  | @tokenUsed tokenId usedAt => exact tokensAge_modifyToken c (ages_touched usedAt)
  | @tokenRevoked tokenId revokedAt => exact tokensAge_modifyToken c (ages_revoked revokedAt)
  | _ => exact tokensAge_of_eq rfl

theorem tokensAge_after (c : Catalog) (requests : List Request) : TokensAge c (c.after requests) := by
  induction requests generalizing c with
  | nil => exact tokensAge_of_eq rfl
  | cons r rest ih => exact (tokensAge_answer c r).trans (ih _)

/-! ### Tokens that can be told apart -/

/-- Tokens differ in their identifiers and in their hashes. -/
structure TokensSound (c : Catalog) : Prop where
  ids : (c.tokens.map Token.tokenId).Nodup
  hashes : (c.tokens.map Token.tokenHash).Nodup

theorem tokensSound_empty : TokensSound Catalog.empty :=
  ⟨List.nodup_nil, List.nodup_nil⟩

theorem TokensSound.modifyToken (h : TokensSound c) {tokenId : Uuid} {change : Token → Token}
    (hages : ∀ t : Token, t.Ages (change t)) : TokensSound (c.modifyToken tokenId change) := by
  have hkeeps {β : Type} (field : Token → β) (hfield : ∀ t, field (change t) = field t) :
      ((c.modifyToken tokenId change).tokens.map field) = c.tokens.map field := by
    simp only [Catalog.modifyToken, List.map_map]
    refine List.map_congr_left fun t _ => ?_
    simp only [Function.comp_apply]
    split
    · exact hfield t
    · rfl
  constructor
  · rw [hkeeps Token.tokenId fun t => by rw [(hages t).same]]
    exact h.ids
  · rw [hkeeps Token.tokenHash fun t => by rw [(hages t).same]]
    exact h.hashes

theorem nodup_map_concat {β : Type} {field : Token → β} {tokens : List Token} {token : Token}
    (h : (tokens.map field).Nodup) (hnew : ∀ t ∈ tokens, field t ≠ field token) :
    ((tokens ++ [token]).map field).Nodup := by
  rw [List.map_append, List.map_singleton, ← List.concat_eq_append]
  refine h.concat fun hmem => ?_
  obtain ⟨t, ht, hsame⟩ := List.mem_map.mp hmem
  exact hnew t ht hsame

theorem TokensSound.withToken (h : TokensSound c) {token : Token} (hnew : c.IsNew token) :
    TokensSound (c.withToken token) :=
  ⟨nodup_map_concat h.ids fun t ht => (hnew t ht).1, nodup_map_concat h.hashes fun t ht => (hnew t ht).2⟩

theorem tokensSound_answer (h : TokensSound c) (r : Request) : TokensSound (c.answer r).2 := by
  have hframe := framed c r
  generalize (c.answer r).2 = next at hframe
  cases hframe with
  | tokenMade new => exact h.withToken new
  | @tokenUsed tokenId usedAt => exact h.modifyToken (ages_touched usedAt)
  | @tokenRevoked tokenId revokedAt => exact h.modifyToken (ages_revoked revokedAt)
  | _ => exact ⟨h.ids, h.hashes⟩

theorem tokensSound_after (h : TokensSound c) (requests : List Request) : TokensSound (c.after requests) := by
  induction requests generalizing c with
  | nil => exact h
  | cons r rest ih => exact ih (tokensSound_answer h r)

theorem TokensSound.tokenByHash?_of_mem (h : TokensSound c) {t : Token} (ht : t ∈ c.tokens) :
    c.tokenByHash? t.tokenHash = some t := by
  cases hfound : c.tokenByHash? t.tokenHash with
  | none => exact absurd (List.find?_eq_none.mp hfound t ht) (by simp)
  | some u =>
    have hsame : u.tokenHash = t.tokenHash := by simpa using List.find?_some hfound
    rw [List.inj_on_of_nodup_map h.hashes (List.mem_of_find?_eq_some hfound) ht hsame]

end Depot.Catalog
