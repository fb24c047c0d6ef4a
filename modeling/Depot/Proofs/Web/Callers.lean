import Depot.Proofs.Service.Confined
import Depot.Proofs.Text.Digits
import Depot.Web.Caller

/-!
# Whose request it is

- `Presents`: a request has a secret in its header, behind the word `bearer` in any letter case. Such a secret is read
  back (`Presents.bearer?_eq`).
- `presented?`: the token that a request presents, as a catalog knows it.
- `Admitted`: whom a request is let in as; `fares_authenticate` says that finding it out reads a token and then records
  at most that this token was used.
-/

namespace Depot.Web

open Service Text Time

variable {c : Catalog} {r : Request} {now : DateTime} {secret : String}

/-! ### The header -/

/-- A printable character of ASCII, or a blank. -/
def IsPrintable (d : Char) : Prop := 32 ≤ d.toNat ∧ d.toNat ≤ 126

instance (d : Char) : Decidable (IsPrintable d) := inferInstanceAs (Decidable (_ ∧ _))

theorem printable_of_all {chars : List Char} (h : chars.all fun d => IsPrintable d) : ∀ d ∈ chars, IsPrintable d :=
  fun d hd => of_decide_eq_true (List.all_eq_true.mp h d hd)

/-- A request has a secret of printable characters in its header, behind the word `bearer` in any letter case. -/
structure Presents (r : Request) (secret : String) : Prop where
  printable : ∀ d ∈ secret.toList, IsPrintable d
  header : ∃ word : List Char, word.map Char.toLower = "bearer".toList ∧
    r.headers.lookup "authorization" = some (utf8 (String.ofList (word ++ ' ' :: secret.toList)))

theorem printable_of_toLower {d : Char} (h : d.toLower ∈ "bearer".toList) : IsPrintable d := by
  by_cases hupper : d.val ≥ 'A'.val ∧ d.val ≤ 'Z'.val
  · have hlow : 65 ≤ d.toNat := UInt32.le_iff_toNat_le.mp hupper.1
    have hhigh : d.toNat ≤ 90 := UInt32.le_iff_toNat_le.mp hupper.2
    exact ⟨by omega, by omega⟩
  · have hsame : d.toLower = d := dif_neg hupper
    rw [hsame] at h
    have hletters : "bearer".toList.all fun e => IsPrintable e := by decide
    exact printable_of_all hletters d h

theorem header?_of_printable {name : String} {chars : List Char} (hchars : ∀ d ∈ chars, IsPrintable d)
    (h : r.headers.lookup name = some (utf8 (String.ofList chars))) : r.header? name = some (String.ofList chars) := by
  have htext : (utf8 (String.ofList chars)).all Request.isHeaderText = true := by
    have hascii : ∀ d ∈ chars, d.toNat < 128 := fun d hd => Nat.lt_of_le_of_lt (hchars d hd).2 (by decide)
    rw [utf8_ofList hascii, asciiBytes, List.all_map, List.all_eq_true]
    intro d hd
    obtain ⟨hlow, hhigh⟩ := hchars d hd
    have hbyte : d.toNat.toUInt8.toNat = d.toNat := by
      rw [Nat.toUInt8, UInt8.toNat_ofNat']
      omega
    simp [Request.isHeaderText, UInt8.le_iff_toNat_le, hbyte, hlow, hhigh]
  rw [Request.header?, h, Option.bind_eq_bind, Option.bind_some, if_pos htext, ofUtf8?_utf8]

theorem Presents.bearer?_eq (h : Presents r secret) : bearer? r = some secret := by
  obtain ⟨word, hword, hheader⟩ := h.header
  have hlength : word.length = 6 := by simpa using congrArg List.length hword
  have hchars : ∀ d ∈ word ++ ' ' :: secret.toList, IsPrintable d := by
    intro d hd
    rcases List.mem_append.mp hd with hfirst | hrest
    · exact printable_of_toLower (hword ▸ List.mem_map_of_mem hfirst)
    · rcases List.mem_cons.mp hrest with rfl | hsecret
      · decide
      · exact h.printable d hsecret
  have htake : (word ++ ' ' :: secret.toList).take 7 = word ++ [' '] := by
    rw [List.take_append, hlength, List.take_of_length_le (by omega)]
    rfl
  have hdrop : (word ++ ' ' :: secret.toList).drop 7 = secret.toList := by
    rw [List.drop_append, hlength, List.drop_of_length_le (by omega)]
    rfl
  rw [bearer?, header?_of_printable hchars hheader, Option.bind_eq_bind, Option.bind_some, String.toList_ofList, htake,
    hdrop, List.map_append, hword, String.ofList_toList]
  rfl

/-! ### The token -/

/-- The token that a request presents, if the catalog knows it. -/
def presented? (c : Catalog) (r : Request) : Option Catalog.Token :=
  (bearer? r).bind fun secret => c.tokenByHash? (tokenHash secret)

/-- The call by which the use of the token is recorded that a request presents. -/
def IsUse (c : Catalog) (r : Request) (now : DateTime) (call : Call) : Prop :=
  ∃ t, presented? c r = some t ∧ t.isActive now = true ∧ call = .catalog (.touchToken t.tokenId now)

/-- Whom a request is let in as, or why it is not. -/
inductive Admitted (c : Catalog) (r : Request) (now : DateTime) : Except Failure (Option Caller) → Prop where
  | anonymous (silent : bearer? r = none) : Admitted c r now (.ok none)
  | refused (why : String) (inactive : ∀ t, presented? c r = some t → t.isActive now = false) :
    Admitted c r now (.error (.unauthorized why))
  | caller {t : Catalog.Token} (token : presented? c r = some t) (active : t.isActive now = true) :
    Admitted c r now (.ok (some ⟨t.tokenId, t.userId, t.isAdmin⟩))

/-- What a request does with the token that it has asked for. -/
def letIn (now : DateTime) : Except Catalog.StoreError (Option Catalog.Token) → Action (Option Caller)
  | .error e => throw (.store e)
  | .ok none => throw (.unauthorized "unknown token")
  | .ok (some token) => do
    if !token.isActive now then throw (.unauthorized "token expired or revoked")
    discard (Action.attempt (.catalog (.touchToken token.tokenId now)))
    return some ⟨token.tokenId, token.userId, token.isAdmin⟩

theorem run_authenticate (h : bearer? r = some secret) (now : DateTime) :
    (authenticate r now).run =
      .call (.catalog (.getTokenByHash (tokenHash secret))) fun reply => (letIn now reply).run := by
  rw [authenticate, h]
  refine congrArg (Task.call _) (funext fun reply => ?_)
  rcases reply with e | _ | token <;> rfl

/-- **A request is let in as whom its token says, if the token is active. That the token is used is all that is
recorded.** -/
theorem fares_authenticate (c : Catalog) (r : Request) (now : DateTime) :
    Fares (IsUse c r now) (Admitted c r now) c (authenticate r now).run := by
  cases hsecret : bearer? r with
  | none =>
    have hrun : (authenticate r now).run = .done (.ok none) := by
      rw [authenticate, hsecret]
      rfl
    rw [hrun]
    exact .confined (.anonymous hsecret)
  | some secret =>
    rw [run_authenticate hsecret]
    refine .reads trivial ?_
    have hpresented : presented? c r = c.tokenByHash? (tokenHash secret) := by
      rw [presented?, hsecret, Option.bind_some]
    change Confined _ _ (letIn now (.ok (c.tokenByHash? (tokenHash secret)))).run
    cases hfound : c.tokenByHash? (tokenHash secret) with
    | none =>
      refine Admitted.refused "unknown token" fun t ht => ?_
      rw [hpresented, hfound] at ht
      cases ht
    | some token =>
      rw [hfound] at hpresented
      cases hactive : token.isActive now with
      | false =>
        have hrun : (letIn now (.ok (some token))).run = .done (.error (.unauthorized "token expired or revoked")) := by
          simp only [letIn, hactive]
          rfl
        rw [hrun]
        refine Admitted.refused _ fun t ht => ?_
        rw [hpresented] at ht
        cases ht
        exact hactive
      | true =>
        have hrun : (letIn now (.ok (some token))).run =
            .call (.catalog (.touchToken token.tokenId now)) fun _ =>
              .done (.ok (some ⟨token.tokenId, token.userId, token.isAdmin⟩)) := by
          simp only [letIn, hactive]
          rfl
        rw [hrun]
        exact ⟨⟨token, hpresented, hactive, rfl⟩, fun _ => .caller hpresented hactive⟩

end Depot.Web
