import Depot.Proofs.Catalog.Frame
import Depot.Proofs.Time.TextOrder
import Mathlib.Data.List.Permutation

/-!
# The order in which tokens are listed

Tokens are listed by the texts of the times at which they were made. That is the order of the times, but for tokens
of one second: one whose fraction goes on behind the digits of another's is listed before the other, though it was
made later.

- **`listed_tokens`**: which tokens are listed, and which of two comes first.
- `later_listed_first`: half a second past a whole one is listed before it.
-/

namespace Depot.Catalog

open Time

variable {c : Catalog} {user : Option String} {a b : DateTime}

/-- The tokens of a user, or all tokens. -/
def tokensOf (c : Catalog) : Option String → List Token
  | none => c.tokens
  | some user => c.tokens.filter fun t => t.userId = user

theorem listTokens_perm (c : Catalog) (user : Option String) : (c.listTokens user).Perm (c.tokensOf user) := by
  have hmatching : (c.tokens.filter fun t => user.all fun u => t.userId == u) = c.tokensOf user := by
    cases user with
    | none => exact List.filter_eq_self.mpr fun _ _ => rfl
    | some u => rfl
  rw [← hmatching]
  exact List.mergeSort_perm _ _

theorem mem_tokens_of_mem_listTokens {t : Token} (ht : t ∈ c.listTokens user) : t ∈ c.tokens := by
  have hmem := (listTokens_perm c user).mem_iff.mp ht
  cases user with
  | none => exact hmem
  | some u => exact (List.mem_filter.mp hmem).1

theorem listTokens_ordered (c : Catalog) (user : Option String) :
    (c.listTokens user).Pairwise fun a b => storedTime a.createdAt ≤ storedTime b.createdAt := by
  have hsorted := @List.pairwise_mergeSort Token
    (fun a b => decide (storedTime a.createdAt ≤ storedTime b.createdAt))
    (fun a b c hab hbc => by simpa using String.le_trans (of_decide_eq_true hab) (of_decide_eq_true hbc))
    (fun a b => by simpa using String.le_total (storedTime a.createdAt) (storedTime b.createdAt))
    (c.tokens.filter fun t => user.all fun u => t.userId == u)
  simpa only [listTokens, decide_eq_true_eq] using hsorted

theorem storedTime_le_iff (ha : a.HasUtcText) (hb : b.HasUtcText) :
    storedTime a ≤ storedTime b ↔ (a.Overtakes b ∨ a.instant ≤ b.instant) ∧ ¬b.Overtakes a := by
  rw [storedTime, storedTime, ha.render?_eq, hb.render?_eq]
  exact ha.text_le_iff hb ha.render?_eq hb.render?_eq

/-- Of two tokens the one that overtakes the other is listed first, and a user whose tokens they are has the same list
as all users. -/
theorem listTokens_pair {first second : Token} (htokens : c.tokensOf user = [first, second])
    (hutc : first.createdAt.HasUtcText ∧ second.createdAt.HasUtcText)
    (hover : second.createdAt.Overtakes first.createdAt) : c.listTokens user = [second, first] := by
  have hperm := listTokens_perm c user
  rw [htokens] at hperm
  rcases List.perm_pair.mp hperm with heq | heq
  · have hordered := listTokens_ordered c user
    rw [heq] at hordered
    have hle := List.rel_of_pairwise_cons hordered List.mem_cons_self
    exact absurd hover ((storedTime_le_iff hutc.1 hutc.2).mp hle).2
  · exact heq

/-- A token of a user that was made at a fraction of the first second of 1970. -/
def tokenAt (serial nano : Nat) (hnano : nano < 1000000000) : Token :=
  ⟨.ofNat serial, "ann", toString serial, false, none, none,
    ⟨DateTime.epoch.date, ⟨0, 0, 0, nano, by decide, by decide, by decide, hnano⟩, 0⟩, none, none⟩

theorem hasUtcText_tokenAt (serial nano : Nat) (hnano : nano < 1000000000) :
    (tokenAt serial nano hnano).createdAt.HasUtcText :=
  ⟨rfl, Int.natCast_nonneg 1970⟩

/-- **Every token that is asked for is listed once. A token is listed before another if it is not made later, or if it
is made later in the same second with a fraction that goes on behind the digits of the other's; and in the second case
it always is. So where no such two tokens are listed, they are listed in the order in which they were made.** -/
theorem listed_tokens (c : Catalog) (hutc : ∀ t ∈ c.tokens, t.createdAt.HasUtcText) (user : Option String) :
    (c.listTokens user).Perm (c.tokensOf user) ∧
      ((c.listTokens user).Pairwise fun a b =>
        (a.createdAt.Overtakes b.createdAt ∨ a.createdAt.instant ≤ b.createdAt.instant) ∧
          ¬b.createdAt.Overtakes a.createdAt) ∧
      ((∀ a ∈ c.tokensOf user, ∀ b ∈ c.tokensOf user, ¬a.createdAt.Overtakes b.createdAt) →
        (c.listTokens user).Pairwise fun a b => a.createdAt.instant ≤ b.createdAt.instant) := by
  have hperm := listTokens_perm c user
  have hordered : (c.listTokens user).Pairwise fun a b =>
      (a.createdAt.Overtakes b.createdAt ∨ a.createdAt.instant ≤ b.createdAt.instant) ∧
        ¬b.createdAt.Overtakes a.createdAt := by
    refine (listTokens_ordered c user).imp_of_mem fun ha hb hle => ?_
    exact (storedTime_le_iff (hutc _ (mem_tokens_of_mem_listTokens ha))
      (hutc _ (mem_tokens_of_mem_listTokens hb))).mp hle
  refine ⟨hperm, hordered, fun hnone => hordered.imp_of_mem fun ha hb h => ?_⟩
  exact h.1.resolve_left (hnone _ (hperm.mem_iff.mp ha) _ (hperm.mem_iff.mp hb))

/-- A quarter of a second is listed before half a second, in whatever order the tokens were made. -/
theorem listed_tokens_quarter :
    let half := tokenAt 1 500000000 (by decide)
    let quarter := tokenAt 2 250000000 (by decide)
    let c := Catalog.empty.after [.createToken half, .createToken quarter]
    (∀ t ∈ c.tokens, t.createdAt.HasUtcText) ∧
      (∀ a ∈ c.tokensOf (some "ann"), ∀ b ∈ c.tokensOf (some "ann"), ¬a.createdAt.Overtakes b.createdAt) ∧
      (c.listTokens (some "ann")).Pairwise fun a b => a.createdAt.instant ≤ b.createdAt.instant := by
  intro half quarter c
  have htokens : c.tokens = [half, quarter] := rfl
  have hmatching : c.tokensOf (some "ann") = [half, quarter] := rfl
  have hutc : ∀ t ∈ c.tokens, t.createdAt.HasUtcText := by
    rw [htokens]
    exact List.forall_mem_cons.mpr ⟨hasUtcText_tokenAt _ _ _, List.forall_mem_singleton.mpr (hasUtcText_tokenAt _ _ _)⟩
  have hnone : ∀ a ∈ c.tokensOf (some "ann"), ∀ b ∈ c.tokensOf (some "ann"),
      ¬a.createdAt.Overtakes b.createdAt := by
    rw [hmatching]
    decide
  exact ⟨hutc, hnone, (listed_tokens c hutc (some "ann")).2.2 hnone⟩

/-- Half a second past a whole one is listed before it. -/
theorem later_listed_first :
    let whole := tokenAt 1 0 (by decide)
    let half := tokenAt 2 500000000 (by decide)
    let c := Catalog.empty.after [.createToken whole, .createToken half]
    c.tokens = [whole, half] ∧ whole.createdAt.instant < half.createdAt.instant ∧
      c.listTokens none = [half, whole] ∧ c.listTokens (some "ann") = [half, whole] := by
  intro whole half c
  have htokens : c.tokens = [whole, half] := rfl
  have hutc : whole.createdAt.HasUtcText ∧ half.createdAt.HasUtcText :=
    ⟨hasUtcText_tokenAt _ _ _, hasUtcText_tokenAt _ _ _⟩
  have hover : half.createdAt.Overtakes whole.createdAt := ⟨rfl, by decide⟩
  exact ⟨htokens, by decide, listTokens_pair htokens hutc hover, listTokens_pair rfl hutc hover⟩

end Depot.Catalog
